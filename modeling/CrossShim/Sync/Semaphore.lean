import CrossShim.Lib.Monitor
import CrossShim.Sync.Time

/-!
# Semaphores

The semaphore of one address, after a `sem_init` that has succeeded: its value, its flags, its entry in the table of
semaphores, and the count word in guest memory, which is there or not (`SemData`).  A call looks up the semaphore,
and then works on it under its lock, so its sections are those of a monitor.

`reach_semOk` collects what holds in every state of every run: the value is the initial one plus the posts minus the
waits that have succeeded, its range, the count word, what a timeout means, and that a `sem_destroy` that has
returned leaves nobody waiting.
-/

namespace CrossShim.Sync

open Lib Monitor

/-! ### The semaphore -/

def guestSemValueMax : BitVec 32 := 0x3fffffff

/-- `HleSemaphoreState`, whether it is in `g_hle_sem_state`, and the count word of the guest's semaphore. -/
structure SemData where
  value : BitVec 32
  initialized : Bool
  destroyed : Bool
  entry : Bool
  word : Option (BitVec 32)

namespace SemData

variable (d : SemData)

/-- `write_guest_sem_state`: where the memory is not mapped nothing happens. -/
def writeGuest (value : BitVec 32) : SemData := { d with word := d.word.map fun _ => value }

def hleSemInit (value : BitVec 32) : Ret × SemData :=
  if guestSemValueMax < value then (.err .EINVAL, d)
  else
    (.ok, { d with value := value, initialized := true, destroyed := false, entry := true }.writeGuest value)

def Dead : Prop := d.initialized = false ∨ d.destroyed = true

instance (d : SemData) : Decidable d.Dead := inferInstanceAs (Decidable (_ ∨ _))

/-- The end of a wait that has found the value positive. -/
def take : SemData := { d with value := d.value - 1 }.writeGuest (d.value - 1)

def give : SemData := { d with value := d.value + 1 }.writeGuest (d.value + 1)

/-- What `hle_sem_destroy` does under the lock. -/
def kill : SemData := { d with value := 0, initialized := false, destroyed := true }.writeGuest 0

end SemData

open SemData

/-! ### The calls -/

/-- How a wait waits; the time of a timed one is missing if it cannot be read. -/
inductive SemMode where
  | block
  | tryOnly
  | timed (timeout : Option Timespec)

/-- The calls; `sem_getvalue` may be given a null pointer. -/
inductive SemCall where
  | wait (mode : SemMode)
  | post
  | getvalue (null : Bool)
  | destroy

inductive SemResult where
  | ok
  | value (v : BitVec 32)
  | err (e : Errno)
  deriving DecidableEq

/-- Where a call is: at its look-up, at the lock, woken from a wait, or in one of the last two steps of
`sem_destroy`. -/
inductive SemPlace where
  | lookup
  | locked
  | resume
  | notify
  | erase
  deriving DecidableEq

/-- An error of `clock_gettime`, which is never `ETIMEDOUT`. -/
abbrev ClockError := { e : Errno // e ≠ .ETIMEDOUT }

/-- What a section sees of its clock, and whether its wait has timed out. -/
structure SemSight where
  now : Except ClockError Timespec
  timedOut : Bool

/-- `timespec_deadline_passed`. -/
def Passed (deadline now : Timespec) : Prop :=
  deadline.sec < now.sec ∨ (now.sec = deadline.sec ∧ deadline.nsec ≤ now.nsec)

instance (deadline now : Timespec) : Decidable (Passed deadline now) := inferInstanceAs (Decidable (_ ∨ _))

abbrev SemOutcome := Outcome SemData SemPlace SemResult

namespace SemData

variable (d : SemData)

def fails (e : Errno) : SemOutcome := ⟨d, .nobody, .ret (.err e)⟩

/-- The end of `sem_wait_internal`. -/
def finish : SemOutcome := if d.Dead then d.fails .EINVAL else ⟨d.take, .nobody, .ret .ok⟩

def timedLoop (timeout : Timespec) (now : Except ClockError Timespec) : SemOutcome :=
  if d.value = 0 ∧ ¬ d.Dead then
    match now with
    | .error e => d.fails e.1
    | .ok now => if Passed timeout now then d.fails .ETIMEDOUT else ⟨d, .nobody, .sleep .resume⟩
  else d.finish

/-- `sem_wait_internal`, up to its first wait. -/
def waitLocked (mode : SemMode) (now : Except ClockError Timespec) : SemOutcome :=
  if d.Dead then d.fails .EINVAL
  else if d.value = 0 then
    match mode with
    | .tryOnly => d.fails .EAGAIN
    | .block => ⟨d, .nobody, .sleep .resume⟩
    | .timed none => d.fails .EINVAL
    | .timed (some timeout) => if ¬ timeout.Valid then d.fails .EINVAL else d.timedLoop timeout now
  else d.finish

/-- `sem_wait_internal`, woken.  A wait goes on while nothing has changed and its time is not over. -/
def waitResume (mode : SemMode) (t : SemSight) : SemOutcome :=
  match mode with
  | .timed (some timeout) =>
    if d.value = 0 ∧ ¬ d.Dead ∧ t.timedOut = false then ⟨d, .nobody, .sleep .resume⟩ else d.timedLoop timeout t.now
  | _ => if d.value = 0 ∧ ¬ d.Dead then ⟨d, .nobody, .sleep .resume⟩ else d.finish

/-- `hle_sem_post`. It notifies after releasing the lock; a thread may be woken at any time, so that is part of the
section. -/
def postLocked : SemOutcome :=
  if d.Dead then d.fails .EINVAL
  else if d.value = guestSemValueMax then d.fails .EOVERFLOW
  else ⟨d.give, .one, .ret .ok⟩

/-- `hle_sem_getvalue`. -/
def getvalueLocked : SemOutcome := if d.Dead then d.fails .EINVAL else ⟨d, .nobody, .ret (.value d.value)⟩

/-- `get_sem_state`. -/
def lookup : SemOutcome := if d.entry then ⟨d, .nobody, .go .locked⟩ else d.fails .EINVAL

def runSection (c : SemCall) (k : SemPlace) (t : SemSight) (d : SemData) : SemOutcome :=
  match c with
  | .wait mode =>
    match k with
    | .lookup =>
      match mode with
      | .timed none => d.fails .EINVAL
      | _ => d.lookup
    | .locked => d.waitLocked mode t.now
    | _ => d.waitResume mode t
  | .post =>
    match k with
    | .lookup => d.lookup
    | _ => d.postLocked
  | .getvalue null =>
    match k with
    | .lookup => if null then d.fails .EINVAL else d.lookup
    | _ => d.getvalueLocked
  | .destroy =>
    match k with
    | .lookup => if d.entry then ⟨d, .nobody, .go .locked⟩ else ⟨d, .nobody, .ret .ok⟩
    | .locked => ⟨d.kill, .nobody, .go .notify⟩
    | .notify => ⟨d, .all, .go .erase⟩
    | _ => ⟨{ d with entry := false }, .nobody, .ret .ok⟩

end SemData

variable {ι : Type*} [DecidableEq ι]

def semMonitor : Monitor ι SemCall SemPlace SemSight SemData SemResult :=
  ⟨fun _ => .lookup, fun _ => runSection⟩

abbrev SemState (ι : Type*) := State ι SemCall SemPlace SemData SemResult

/-- All runs on a semaphore that was initialised with a value. -/
def semSystem (value : BitVec 32) : System (SemState ι) (Event ι SemCall SemSight) :=
  semMonitor.system fun d => ∃ d₀ : SemData, d₀.hleSemInit value = (.ok, d)

/-! ### What holds in every run -/

def posts : List (ι × SemCall × SemResult) → ℕ
  | [] => 0
  | (_, .post, .ok) :: log => posts log + 1
  | _ :: log => posts log

def waited : List (ι × SemCall × SemResult) → ℕ
  | [] => 0
  | (_, .wait _, .ok) :: log => waited log + 1
  | _ :: log => waited log

/-- A `sem_destroy` has returned. -/
def DestroyReturned (log : List (ι × SemCall × SemResult)) : Prop := ∃ i r, (i, SemCall.destroy, r) ∈ log

structure SemOk (value : BitVec 32) (s : SemState ι) : Prop where
  /-- The value is the initial one plus the posts minus the waits. -/
  conserved : s.data.destroyed = false → s.data.value.toNat + waited s.log = value.toNat + posts s.log
  range : s.data.value.toNat ≤ 0x3fffffff
  word : ∀ w, s.data.word = some w → w = s.data.value
  /-- A timeout means that the clock had reached the deadline while the value was 0. -/
  timeout : ∀ i c k t, s.active i = some ⟨c, k, false⟩ → (semMonitor.run i c k t s.data).next = .ret (.err .ETIMEDOUT) →
    s.data.value = 0 ∧ ∃ deadline now, c = .wait (.timed (some deadline)) ∧ t.now = .ok now ∧ Passed deadline now
  /-- A `sem_destroy` that has returned has released every waiter. -/
  destroyed : DestroyReturned s.log → ∀ i x mode, s.active i = some x → x.call = .wait mode →
    x.asleep = false ∧ ∀ t, (semMonitor.run i x.call x.place t s.data).next = .ret (.err .EINVAL)

/-! ### The effect of one section -/

inductive SemDoes (c : SemCall) (k : SemPlace) (t : SemSight) (d : SemData) : SemOutcome → Prop where
  | answer (r : SemResult) (hc : c ≠ .destroy) (hr : r ≠ .ok)
      (ht : r = .err .ETIMEDOUT → d.value = 0 ∧
        ∃ deadline now, c = .wait (.timed (some deadline)) ∧ t.now = .ok now ∧ Passed deadline now) :
      SemDoes c k t d ⟨d, .nobody, .ret r⟩
  | found (hk : k = .lookup) (he : d.entry = true) : SemDoes c k t d ⟨d, .nobody, .go .locked⟩
  | sleep (mode : SemMode) (hc : c = .wait mode) (hd : ¬ d.Dead) : SemDoes c k t d ⟨d, .nobody, .sleep .resume⟩
  | take (mode : SemMode) (hc : c = .wait mode) (hd : ¬ d.Dead) (hv : d.value ≠ 0) :
      SemDoes c k t d ⟨d.take, .nobody, .ret .ok⟩
  | give (hc : c = .post) (hd : ¬ d.Dead) (hv : d.value ≠ guestSemValueMax) : SemDoes c k t d ⟨d.give, .one, .ret .ok⟩
  | kill (hc : c = .destroy) (hk : k = .locked) : SemDoes c k t d ⟨d.kill, .nobody, .go .notify⟩
  | notify (hc : c = .destroy) (hk : k = .notify) : SemDoes c k t d ⟨d, .all, .go .erase⟩
  | erase (hc : c = .destroy) (hk : k = .resume ∨ k = .erase) :
      SemDoes c k t d ⟨{ d with entry := false }, .nobody, .ret .ok⟩
  | absent (hc : c = .destroy) (hk : k = .lookup) (he : d.entry = false) : SemDoes c k t d ⟨d, .nobody, .ret .ok⟩

section Does

variable {c : SemCall} {k : SemPlace} {mode : SemMode} {timeout : Timespec} {t : SemSight} {d : SemData}

lemma fails_does {e : Errno} (hc : c ≠ .destroy) (he : e ≠ .ETIMEDOUT) : SemDoes c k t d (d.fails e) :=
  .answer _ hc nofun fun h => absurd (SemResult.err.inj h) he

lemma finish_does (h : ¬ (d.value = 0 ∧ ¬ d.Dead)) : SemDoes (.wait mode) k t d d.finish := by
  unfold finish
  split
  case isTrue => exact fails_does nofun nofun
  case isFalse hd => exact .take mode rfl hd fun hv => h ⟨hv, hd⟩

lemma timedLoop_does : SemDoes (.wait (.timed (some timeout))) k t d (d.timedLoop timeout t.now) := by
  unfold timedLoop
  split
  case isTrue h =>
    cases hnow : t.now with
    | error e => exact fails_does nofun e.2
    | ok now =>
      simp only
      split
      case isTrue hp => exact .answer _ nofun nofun fun _ => ⟨h.1, timeout, now, rfl, hnow, hp⟩
      case isFalse => exact .sleep _ rfl h.2
  case isFalse h => exact finish_does h

lemma waitLocked_does : SemDoes (.wait mode) k t d (d.waitLocked mode t.now) := by
  unfold waitLocked
  split
  case isTrue => exact fails_does nofun nofun
  case isFalse hd =>
    split
    case isFalse hv => exact finish_does fun h => hv h.1
    case isTrue hv =>
      cases mode with
      | block => exact .sleep _ rfl hd
      | tryOnly => exact fails_does nofun nofun
      | timed timeout =>
        cases timeout with
        | none => exact fails_does nofun nofun
        | some timeout =>
          simp only
          split
          case isTrue => exact fails_does nofun nofun
          case isFalse => exact timedLoop_does

lemma waitResume_does : SemDoes (.wait mode) k t d (d.waitResume mode t) := by
  have hwait : SemDoes (.wait mode) k t d
      (if d.value = 0 ∧ ¬ d.Dead then ⟨d, .nobody, .sleep .resume⟩ else d.finish) := by
    split
    case isTrue h => exact .sleep _ rfl h.2
    case isFalse h => exact finish_does h
  cases mode with
  | block | tryOnly => exact hwait
  | timed timeout =>
    cases timeout with
    | none => exact hwait
    | some timeout =>
      simp only [waitResume]
      split
      case isTrue h => exact .sleep _ rfl h.2.1
      case isFalse => exact timedLoop_does

lemma lookup_does (hc : c ≠ .destroy) : SemDoes c .lookup t d d.lookup := by
  unfold lookup
  split
  case isTrue he => exact .found rfl he
  case isFalse => exact fails_does hc nofun

lemma postLocked_does : SemDoes .post k t d d.postLocked := by
  unfold postLocked
  split
  case isTrue => exact fails_does nofun nofun
  case isFalse hd =>
    split
    case isTrue => exact fails_does nofun nofun
    case isFalse hv => exact .give rfl hd hv

lemma getvalueLocked_does {null : Bool} : SemDoes (.getvalue null) k t d d.getvalueLocked := by
  unfold getvalueLocked
  split
  case isTrue => exact fails_does nofun nofun
  case isFalse => exact .answer _ nofun nofun nofun

lemma semRun_does : SemDoes c k t d (d.runSection c k t) := by
  cases c with
  | wait mode =>
    cases k with
    | lookup =>
      cases mode with
      | timed timeout =>
        cases timeout with
        | none => exact fails_does nofun nofun
        | some timeout => exact lookup_does nofun
      | block | tryOnly => exact lookup_does nofun
    | locked => exact waitLocked_does
    | resume | notify | erase => exact waitResume_does
  | post =>
    cases k with
    | lookup => exact lookup_does nofun
    | locked | resume | notify | erase => exact postLocked_does
  | getvalue null =>
    cases k with
    | lookup =>
      cases null with
      | true => exact fails_does nofun nofun
      | false => exact lookup_does nofun
    | locked | resume | notify | erase => exact getvalueLocked_does
  | destroy =>
    cases k with
    | lookup =>
      simp only [runSection]
      split
      case isTrue he => exact .found rfl he
      case isFalse he => exact .absent rfl rfl (by simpa using he)
    | locked => exact .kill rfl rfl
    | resume => exact .erase rfl (.inl rfl)
    | notify => exact .notify rfl rfl
    | erase => exact .erase rfl (.inr rfl)

end Does

/-! ### The semaphore itself -/

structure SemData.Ok (d : SemData) : Prop where
  flags : d.initialized = !d.destroyed
  range : d.value ≤ guestSemValueMax
  word : ∀ w, d.word = some w → w = d.value

lemma hleSemInit_ok {d₀ d : SemData} {value : BitVec 32} (h : d₀.hleSemInit value = (.ok, d)) :
    d.Ok ∧ d.value = value ∧ d.destroyed = false ∧ d.entry = true := by
  unfold hleSemInit at h
  split at h
  case isTrue => cases h
  case isFalse hv =>
    cases h
    refine ⟨⟨rfl, BitVec.not_lt.1 hv, ?_⟩, rfl, rfl, rfl⟩
    intro w hw
    obtain ⟨-, -, rfl⟩ := Option.map_eq_some_iff.1 hw
    rfl

section Section

variable {c : SemCall} {k : SemPlace} {t : SemSight} {d : SemData} {o : SemOutcome} {i : ι} {r : SemResult}
  {log : List (ι × SemCall × SemResult)}

lemma SemData.Ok.does (h : d.Ok) (hd : SemDoes c k t d o) : o.data.Ok := by
  have hword (d : SemData) (v : BitVec 32) (w : BitVec 32) (hw : (d.writeGuest v).word = some w) : w = v := by
    obtain ⟨-, -, rfl⟩ := Option.map_eq_some_iff.1 hw
    rfl
  have hrange := h.range
  cases hd with
  | answer | found | sleep => exact h
  | take mode _ _ hv =>
    refine ⟨h.flags, ?_, fun w hw => hword _ _ w hw⟩
    change d.value - 1 ≤ guestSemValueMax
    unfold guestSemValueMax at hrange ⊢
    bv_omega
  | give _ _ hv =>
    refine ⟨h.flags, ?_, fun w hw => hword _ _ w hw⟩
    change d.value + 1 ≤ guestSemValueMax
    unfold guestSemValueMax at hrange hv ⊢
    bv_omega
  | kill =>
    have hzero : (0 : BitVec 32) ≤ guestSemValueMax := by decide
    exact ⟨rfl, hzero, fun w hw => hword _ _ w hw⟩
  | notify | absent => exact h
  | erase => exact ⟨h.flags, h.range, h.word⟩

lemma SemDoes.destroyed (hd : SemDoes c k t d o) (h : d.destroyed = true) : o.data.destroyed = true := by
  cases hd with
  | kill => rfl
  | _ => exact h

lemma SemDoes.not_sleep (hd : SemDoes c k t d o) (h : d.destroyed = true) (l : SemPlace) : o.next ≠ .sleep l := by
  cases hd with
  | sleep mode _ hdead => exact absurd (.inr h) hdead
  | _ => nofun

omit [DecidableEq ι] in
lemma posts_cons (h : c ≠ .post ∨ r ≠ .ok) : posts ((i, c, r) :: log) = posts log := by
  cases c <;> cases r <;> simp_all [posts]

omit [DecidableEq ι] in
lemma waited_cons (h : (∀ m, c ≠ .wait m) ∨ r ≠ .ok) : waited ((i, c, r) :: log) = waited log := by
  cases c <;> cases r <;> simp_all [waited]

omit [DecidableEq ι] in
/-- A section keeps the difference between the value and the calls that have changed it. -/
lemma SemDoes.conserved {n : ℕ} (hd : SemDoes c k t d o) (hok : d.Ok)
    (h : d.destroyed = false → d.value.toNat + waited log = n + posts log) (ho : o.data.destroyed = false) :
    o.data.value.toNat + waited (o.next.log i c log) = n + posts (o.next.log i c log) := by
  have hrange := hok.range
  cases hd with
  | answer r hc hr =>
    simp only [Next.log, posts_cons (.inr hr), waited_cons (.inr hr)]
    exact h ho
  | found | sleep => exact h ho
  | take mode hc hdead hv =>
    subst hc
    have hn := h ho
    have hv : (d.value - 1).toNat + 1 = d.value.toNat := by bv_omega
    simp only [Next.log, posts, waited, SemData.take, SemData.writeGuest]
    omega
  | give hc hdead hv =>
    subst hc
    have hn := h ho
    have hv : (d.value + 1).toNat = d.value.toNat + 1 := by
      unfold guestSemValueMax at hrange hv
      bv_omega
    simp only [Next.log, posts, waited, SemData.give, SemData.writeGuest]
    omega
  | kill => cases ho
  | notify => exact h ho
  | erase hc | absent hc =>
    subst hc
    exact h ho

end Section

/-! ### Runs -/

/-- The semaphore is destroyed, and nobody sleeps on it. -/
structure Gone (s : SemState ι) : Prop where
  destroyed : s.data.destroyed = true
  awake : AllAwake s

structure SemInv (value : BitVec 32) (s : SemState ι) : Prop where
  ok : s.data.Ok
  conserved : s.data.destroyed = false → s.data.value.toNat + waited s.log = value.toNat + posts s.log
  /-- A `sem_destroy` behind its lock has marked the semaphore. -/
  marked : ∀ i, s.place i = some (.destroy, .notify) → s.data.destroyed = true
  /-- A `sem_destroy` behind its notification has woken everybody. -/
  woken : ∀ i k, s.place i = some (.destroy, k) → k = .resume ∨ k = .erase → Gone s
  erased : s.data.entry = false → Gone s
  returned : DestroyReturned s.log → s.data.entry = false

section Runs

variable {value : BitVec 32} {s s' : SemState ι} {e : Event ι SemCall SemSight} {d : SemData}

lemma Gone.step (h : Gone s) (hs : semMonitor.step s e = some s') : Gone s' := by
  refine ⟨?_, allAwake_step h.awake hs ?_⟩
  · obtain ⟨i, c, -, -, hdata, -⟩ | ⟨i, -, hdata, -⟩ | ⟨i, t, pick, c, k, -, -, rfl⟩ := step_cases hs
    · exact hdata ▸ h.destroyed
    · exact hdata ▸ h.destroyed
    · exact semRun_does.destroyed h.destroyed
  · intro i t pick c k _ _ l
    exact semRun_does.not_sleep h.destroyed l

omit [DecidableEq ι] in
lemma semInv_init {d₀ : SemData} (h : d₀.hleSemInit value = (.ok, d)) : SemInv value (.init d : SemState ι) := by
  obtain ⟨hok, rfl, hd, he⟩ := hleSemInit_ok h
  refine ⟨hok, fun _ => rfl, nofun, nofun, ?_, ?_⟩
  · intro hx
    exact absurd (he.symm.trans hx) nofun
  · rintro ⟨i, r, hr⟩
    cases hr

lemma SemInv.quiet (h : SemInv value s) (hs : semMonitor.step s e = some s') (hdata : s'.data = s.data)
    (hlog : s'.log = s.log) (hplace : ∀ i c k, s'.place i = some (c, k) → k = .lookup ∨ s.place i = some (c, k)) :
    SemInv value s' := by
  refine ⟨hdata ▸ h.ok, ?_, ?_, ?_, ?_, ?_⟩
  · rw [hdata, hlog]
    exact h.conserved
  · intro i hi
    obtain hk | hk := hplace i _ _ hi
    · cases hk
    · rw [hdata]
      exact h.marked i hk
  · intro i k hi hk
    obtain rfl | hi := hplace i _ _ hi
    · simp at hk
    · exact (h.woken i k hi hk).step hs
  · intro he
    exact (h.erased (hdata ▸ he)).step hs
  · rw [hdata, hlog]
    exact h.returned

lemma SemDoes.entry {c : SemCall} {k : SemPlace} {t : SemSight} {d : SemData} {o : SemOutcome}
    (hd : SemDoes c k t d o) (h : d.entry = false) : o.data.entry = false := by
  cases hd with
  | erase => rfl
  | _ => exact h

lemma SemInv.after {i pick : ι} {c : SemCall} {k : SemPlace} {t : SemSight} {o : SemOutcome} (h : SemInv value s)
    (hat : s.place i = some (c, k)) (hd : SemDoes c k t s.data o) (hgone : Gone s → Gone (s.after i c pick o)) :
    SemInv value (s.after i c pick o) := by
  -- where the other threads are, nothing has changed
  have hplace (j : ι) (x : SemCall × SemPlace) (hj : (s.after i c pick o).place j = some x) :
      (j = i ∧ o.next.place c = some x) ∨ s.place j = some x := by
    rw [place_after] at hj
    exact (of_update hj).imp_right And.right
  refine ⟨h.ok.does hd, hd.conserved h.ok h.conserved, ?marked, ?woken, ?erased, ?returned⟩
  case marked =>
    intro j hj
    obtain ⟨-, hi⟩ | hj := hplace j _ hj
    · cases hd with
      | kill => rfl
      | _ => cases hi
    · exact hd.destroyed (h.marked j hj)
  case woken =>
    intro j l hj hl
    obtain ⟨-, hi⟩ | hj := hplace j _ hj
    · cases hd with
      | notify hc hk =>
        subst hc hk
        exact ⟨h.marked i hat, allAwake_after (.inr rfl) nofun⟩
      | sleep mode hc =>
        subst hc
        cases hi
      | found | kill => cases hi; simp at hl
      | _ => cases hi
    · exact hgone (h.woken j l hj hl)
  case erased =>
    intro he
    cases hd with
    | erase hc hk =>
      subst hc
      exact hgone (h.woken i k hat hk)
    | _ => exact hgone (h.erased he)
  case returned =>
    rintro ⟨j, r, hr⟩
    have hold (hr : (j, SemCall.destroy, r) ∈ s.log) : o.data.entry = false := hd.entry (h.returned ⟨j, r, hr⟩)
    cases hd with
    | erase => rfl
    | absent _ _ he => exact he
    | answer r' hc =>
      obtain hr | hr := List.mem_cons.1 hr
      · cases hr
        exact absurd rfl hc
      · exact hold hr
    | take mode hc | give hc =>
      subst hc
      obtain hr | hr := List.mem_cons.1 hr
      · cases hr
      · exact hold hr
    | _ => exact hold hr

lemma semInv_step (h : SemInv value s) (hs : semMonitor.step s e = some s') : SemInv value s' := by
  obtain ⟨i, c, -, -, hdata, hlog, hplace⟩ | ⟨i, -, hdata, hlog, hplace⟩ | ⟨i, t, pick, c, k, rfl, hi, rfl⟩ :=
    step_cases hs
  · refine h.quiet hs hdata hlog fun j c' k' hj => ?_
    rw [hplace] at hj
    obtain ⟨-, hj⟩ | ⟨-, hj⟩ := of_update hj
    · cases hj
      exact .inl rfl
    · exact .inr hj
  · refine h.quiet hs hdata hlog fun j c' k' hj => .inr ?_
    rwa [hplace] at hj
  · exact h.after (place_of_active hi) semRun_does fun hg => hg.step hs

lemma reachable_semInv (h : (semSystem value).Reachable s) : SemInv value s := by
  refine h.invariant ?_ fun s e s' hi _ hs => semInv_step hi hs
  rintro s ⟨d, ⟨d₀, hd⟩, rfl⟩
  exact semInv_init hd

lemma wait_gone (hd : d.destroyed = true) (he : d.entry = false) (mode : SemMode) (k : SemPlace) (t : SemSight) :
    (d.runSection (.wait mode) k t).next = .ret (.err .EINVAL) := by
  have hdead : d.Dead := .inr hd
  have hfin : d.finish = d.fails .EINVAL := if_pos hdead
  have hnot : ¬ (d.value = 0 ∧ ¬ d.Dead) := fun h => h.2 hdead
  have hresume (mode : SemMode) : d.waitResume mode t = d.fails .EINVAL := by
    unfold waitResume
    split
    case h_1 timeout =>
      have hloop : d.timedLoop timeout t.now = d.fails .EINVAL := (if_neg hnot).trans hfin
      exact (if_neg fun h => h.2.1 hdead).trans hloop
    case h_2 => rw [if_neg hnot, hfin]
  cases k with
  | lookup =>
    have hlook : d.lookup = d.fails .EINVAL := if_neg (by simp [he])
    cases mode with
    | timed timeout =>
      cases timeout with
      | none => rfl
      | some timeout => exact congrArg Outcome.next hlook
    | _ => exact congrArg Outcome.next hlook
  | locked => exact congrArg Outcome.next (if_pos hdead)
  | _ => exact congrArg Outcome.next (hresume mode)

/-- **Semaphores** count: in every run on an initialised semaphore the value is the initial one plus the posts minus the
waits that have succeeded, stays in its range, and is the guest's count word; a wait times out only if the clock has
reached the deadline while the value is 0, and a `sem_destroy` releases every waiter. -/
theorem reach_semOk (value : BitVec 32) (s : SemState ι) (h : (semSystem value).Reachable s) : SemOk value s := by
  have hi := reachable_semInv h
  refine ⟨hi.conserved, hi.ok.range, hi.ok.word, ?_, ?_⟩
  · intro i c k t hact hret
    have hd : SemDoes c k t s.data (semMonitor.run i c k t s.data) := semRun_does
    revert hret hd
    generalize semMonitor.run i c k t s.data = o
    intro hret hd
    cases hd with
    | answer r hc hr ht => exact ht (Next.ret.inj hret)
    | _ => cases hret
  · intro hr i x mode hact hc
    have he := hi.returned hr
    have hg := hi.erased he
    refine ⟨hg.awake i x hact, fun t => ?_⟩
    rw [hc]
    exact wait_gone hg.destroyed he mode x.place t

end Runs

/-- A waiter sleeps on a semaphore that another thread destroys. -/
theorem semOk_released : ∃ s : SemState ℕ, (semSystem 1).Reachable s ∧
    s.place 1 = some (.wait .block, .resume) ∧ DestroyReturned s.log ∧ SemOk 1 s := by
  have h0 : (semSystem 1).Reachable (State.init ⟨1, true, false, true, some 1⟩ : SemState ℕ) :=
    .init ⟨_, ⟨⟨0, false, false, false, some 0⟩, rfl⟩, rfl⟩
  obtain ⟨s, hrun, hplace, hlog⟩ : ∃ s : SemState ℕ,
      [.call 0 (.wait .tryOnly), .run 0 ⟨.ok ⟨0, 0⟩, false⟩ 0, .run 0 ⟨.ok ⟨0, 0⟩, false⟩ 0,
        .call 1 (.wait .block), .run 1 ⟨.ok ⟨0, 0⟩, false⟩ 0, .run 1 ⟨.ok ⟨0, 0⟩, false⟩ 0,
        .call 0 .destroy, .run 0 ⟨.ok ⟨0, 0⟩, false⟩ 0, .run 0 ⟨.ok ⟨0, 0⟩, false⟩ 0,
        .run 0 ⟨.ok ⟨0, 0⟩, false⟩ 0, .run 0 ⟨.ok ⟨0, 0⟩, false⟩ 0].foldlM semMonitor.step
        (State.init ⟨1, true, false, true, some 1⟩) = some s ∧
      s.place 1 = some (.wait .block, .resume) ∧ s.log = [(0, .destroy, .ok), (0, .wait .tryOnly, .ok)] :=
    ⟨_, rfl, rfl, rfl⟩
  have hreach : (semSystem 1).Reachable s := h0.foldlM hrun
  refine ⟨s, hreach, hplace, ⟨0, .ok, ?_⟩, reach_semOk 1 s hreach⟩
  rw [hlog]
  exact List.mem_cons_self

end CrossShim.Sync
