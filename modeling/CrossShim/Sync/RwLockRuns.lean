import CrossShim.Lib.Tally
import CrossShim.Sync.RwLock

/-!
# The threads that share a writer-preferring lock

All runs of the calls on one lock (`rwSystem`): read and write locks, tried, timed or neither, and unlocks, by any
number of threads, where a timed wait may time out whenever it is woken.

What the lock is for is said by its history: `holders` reads from the calls that have returned who has a read lock
how often, and who has the write lock.  `Agrees` says that the counts of the lock are those of the history; with it
goes the count of the waiting writers.  `reach_rwOk` collects what holds in every state of every run, among it that
no wake-up is lost.
-/

namespace CrossShim.Sync

open Lib OrdMap Function Option Monitor HostRWLock

variable {ι : Type*} [LinearOrder ι]

def rwMonitor : Monitor ι RwCall RwPlace Sight (HostRWLock ι) Ret := ⟨fun _ => .enter, runSection⟩

abbrev RwState (ι : Type*) [LinearOrder ι] := State ι RwCall RwPlace (HostRWLock ι) Ret

def rwSystem : System (RwState ι) (Event ι RwCall Sight) := rwMonitor.system fun l => l = {}

/-! ### Who has the lock -/

/-- The read locks of each thread, and the thread with the write lock. -/
structure Holders (ι : Type*) where
  reads : ι → ℕ
  writer : Option ι

def Holders.after (h : Holders ι) (i : ι) (c : RwCall) : Ret → Holders ι
  | .err _ => h
  | .ok =>
    match c with
    | .rdlock _ => { h with reads := update h.reads i (h.reads i + 1) }
    | .wrlock _ => { h with writer := some i }
    | .unlock =>
      if h.writer = some i then { h with writer := none }
      else { h with reads := update h.reads i (h.reads i - 1) }

def holders : List (ι × RwCall × Ret) → Holders ι
  | [] => ⟨fun _ => 0, none⟩
  | (i, c, r) :: log => (holders log).after i c r

def Holders.Without (h : Holders ι) (i : ι) : Prop := h.reads i = 0 ∧ h.writer ≠ some i

def RwReady (i : ι) (_ : RwCall) (p : RwPlace) (l : HostRWLock ι) : Prop :=
  match p with
  | .enter => False
  | .readWait => l.CanRead i
  | .writeWait => l.CanWrite

def AwaitsWrite (s : RwState ι) (i : ι) : Prop := ∃ c, s.place i = some (c, .writeWait)

structure RwOk (s : RwState ι) : Prop where
  /-- A writer excludes the readers. -/
  excl : s.data.writerActive = true → s.data.activeReaders = 0 ∧ ∀ i, (holders s.log).reads i = 0
  /-- The counts are the read locks of the threads. -/
  counts : ∀ i n, (i, n) ∈ s.data.readerCounts.entries → 0 < n ∧ n = (holders s.log).reads i
  sum : s.data.activeReaders = s.data.readerCounts.sum
  waiting : ∃ W : Finset ι, (∀ i, i ∈ W ↔ AwaitsWrite s i) ∧ s.data.waitingWriters = W.card
  /-- A thread without a lock cannot unlock it. -/
  unlock : ∀ i, (holders s.log).Without i → ∀ t,
    rwMonitor.run i .unlock .enter t s.data = ⟨s.data, .nobody, .ret (.err .EINVAL)⟩
  /-- A section that gives a waiting thread what it waits for wakes everybody. -/
  notifies : ∀ i c p t j d q, s.active i = some ⟨c, p, false⟩ → s.place j = some (d, q) → i ≠ j →
    ¬ RwReady j d q s.data → RwReady j d q (rwMonitor.run i c p t s.data).data →
    (rwMonitor.run i c p t s.data).wake = .all
  /-- Nobody sleeps who could have the lock. -/
  attentive : Attentive RwReady s

/-! ### Sections -/

inductive RwDoes (l : HostRWLock ι) (i : ι) (c : RwCall) (p : RwPlace) : Outcome (HostRWLock ι) RwPlace Ret → Prop
  | fail (w : Wake) (e : Errno) : (∀ mode, c = .wrlock mode → p = .enter) → RwDoes l i c p ⟨l, w, .ret (.err e)⟩
  | read (mode : LockMode) : c = .rdlock mode → l.CanRead i ∨ (l.readerCounts.find? i).isSome →
      RwDoes l i c p ⟨l.acquireReader i, .nobody, .ret .ok⟩
  | readSleep (mode : LockMode) : c = .rdlock mode → ¬ l.CanRead i → RwDoes l i c p ⟨l, .nobody, .sleep .readWait⟩
  | write (mode : LockMode) (w : Wake) : c = .wrlock mode → p = .enter → l.CanWrite →
      RwDoes l i c p ⟨l.acquireWriter i, w, .ret .ok⟩
  | writeSleep (mode : LockMode) : c = .wrlock mode → p = .enter → ¬ l.CanWrite →
      RwDoes l i c p ⟨{ l with waitingWriters := l.waitingWriters + 1 }, .nobody, .sleep .writeWait⟩
  | writeAwake (mode : LockMode) : c = .wrlock mode → p ≠ .enter → l.CanWrite →
      RwDoes l i c p ⟨l.clearWaiter.acquireWriter i, .all, .ret .ok⟩
  | writeGiveUp (mode : LockMode) (e : Errno) : c = .wrlock mode → p ≠ .enter →
      RwDoes l i c p ⟨l.clearWaiter, .all, .ret (.err e)⟩
  | writeSleepOn (mode : LockMode) : c = .wrlock mode → p ≠ .enter → ¬ l.CanWrite →
      RwDoes l i c p ⟨l, .nobody, .sleep .writeWait⟩
  | unlockWriter : c = .unlock → l.IsWriter i →
      RwDoes l i c p ⟨{ l with writerActive := false, writerTid := none }, .all, .ret .ok⟩
  | unlockReader (count : ℤ) : c = .unlock → ¬ l.IsWriter i → l.readerCounts.find? i = some count → 0 < count →
      RwDoes l i c p ⟨{ l with
        readerCounts := if count - 1 = 0 then l.readerCounts.erase i else l.readerCounts.insert i (count - 1)
        activeReaders := l.activeReaders - 1 },
        if l.activeReaders - 1 = 0 then .all else .nobody, .ret .ok⟩

section Sections

variable {l : HostRWLock ι} {i : ι} {c : RwCall} {p : RwPlace} {mode : LockMode}

lemma readerAwake_does (hc : c = .rdlock mode) (timedOut : Bool) : RwDoes l i c p (l.readerAwake i timedOut) := by
  have hno (m : LockMode) (h : c = .wrlock m) : p = .enter := by
    rw [hc] at h
    cases h
  unfold readerAwake
  split
  case isTrue h => exact .read mode hc (.inl h)
  case isFalse h =>
    split
    · exact .fail _ _ hno
    · exact .readSleep mode hc h

lemma lockReader_does (hc : c = .rdlock mode) (now : Now) : RwDoes l i c .enter (l.lockReader i mode now) := by
  unfold lockReader
  split
  · exact .fail _ _ fun _ _ => rfl
  · split
    case isTrue h => exact .read mode hc (.inr h)
    case isFalse =>
      split
      · split
        · exact .fail _ _ fun _ _ => rfl
        · rename_i h
          exact .read _ hc (.inl (not_not.1 h))
      · split
        · exact .fail _ _ fun _ _ => rfl
        · exact readerAwake_does hc false

lemma writerAwake_does (hc : c = .wrlock mode) (hp : p ≠ .enter) (timedOut : Bool) :
    RwDoes l i c p (l.writerAwake i timedOut) := by
  unfold writerAwake
  split
  case isTrue h => exact .writeAwake mode hc hp h
  case isFalse h =>
    split
    · exact .writeGiveUp mode _ hc hp
    · exact .writeSleepOn mode hc hp h

lemma lockWriter_does (hc : c = .wrlock mode) (now : Now) : RwDoes l i c .enter (l.lockWriter i mode now) := by
  -- a writer that does not have to wait is counted and discounted
  have hback : ({ l with waitingWriters := l.waitingWriters + 1 } : HostRWLock ι).clearWaiter = l := by
    simp [clearWaiter]
  unfold lockWriter
  split
  · exact .fail _ _ fun _ _ => rfl
  · split
    · exact .fail _ _ fun _ _ => rfl
    · split
      · split
        · exact .fail _ _ fun _ _ => rfl
        · rename_i h
          exact .write _ _ hc rfl (not_not.1 h)
      · dsimp only
        split
        · rw [hback]
          exact .fail _ _ fun _ _ => rfl
        · unfold writerAwake
          rw [hback]
          split
          case isTrue h => exact .write _ _ hc rfl h
          case isFalse h => exact .writeSleep _ hc rfl h

lemma unlock_does (hc : c = .unlock) : RwDoes l i c p (l.unlock i) := by
  have hno (m : LockMode) (h : c = .wrlock m) : p = .enter := by
    rw [hc] at h
    cases h
  unfold unlock
  split
  case isTrue h => exact .unlockWriter hc h
  case isFalse h =>
    split
    · exact .fail _ _ hno
    · rename_i count hcount
      split
      · exact .fail _ _ hno
      · rename_i hpos
        exact .unlockReader count hc h hcount (not_le.1 hpos)

/-- **Everything a section can do.** -/
theorem rwRun_does (l : HostRWLock ι) (i : ι) (c : RwCall) (p : RwPlace) (t : Sight) :
    RwDoes l i c p (rwMonitor.run i c p t l) := by
  cases c with
  | rdlock mode =>
    cases p with
    | enter => exact lockReader_does rfl t.now
    | readWait | writeWait => exact readerAwake_does rfl _
  | wrlock mode =>
    cases p with
    | enter => exact lockWriter_does rfl t.now
    | readWait | writeWait => exact writerAwake_does rfl (by decide) _
  | unlock => exact unlock_does rfl

end Sections

/-! ### Wake-ups -/

def Nonneg (l : HostRWLock ι) : Prop := 0 ≤ l.activeReaders

section WakeUps

variable {l : HostRWLock ι} {i j : ι} {c : RwCall} {p : RwPlace}

lemma canRead_congr {m : HostRWLock ι} (hw : m.writerActive = l.writerActive) (hn : m.waitingWriters = l.waitingWriters)
    (hf : m.readerCounts.find? j = l.readerCounts.find? j) : m.CanRead j ↔ l.CanRead j := by
  simp only [CanRead, hw, hn, hf]

lemma acquireReader_find?_of_ne (hj : j ≠ i) :
    (l.acquireReader i).readerCounts.find? j = l.readerCounts.find? j := find?_insert_of_ne hj

lemma not_rwReady_acquireReader (hl : Nonneg l) (hj : j ≠ i) (h : ¬ RwReady j c p l) :
    ¬ RwReady j c p (l.acquireReader i) := by
  cases p with
  | enter => exact id
  | readWait =>
    have hiff : (l.acquireReader i).CanRead j ↔ l.CanRead j :=
      canRead_congr rfl rfl (acquireReader_find?_of_ne hj)
    exact fun h' => h (hiff.1 h')
  | writeWait =>
    intro h'
    have : l.activeReaders + 1 = 0 := h'.2
    unfold Nonneg at hl
    omega

lemma not_rwReady_acquireWriter : ¬ RwReady j c p (l.acquireWriter i) := by
  cases p with
  | enter => exact id
  | readWait | writeWait =>
    intro h
    cases h.1

lemma not_rwReady_waiting (h : ¬ RwReady j c p l) :
    ¬ RwReady j c p { l with waitingWriters := l.waitingWriters + 1 } := by
  cases p with
  | enter => exact id
  | readWait =>
    intro h'
    refine h ⟨h'.1, fun hwait => h'.2 ⟨?_, hwait.2⟩⟩
    dsimp only
    omega
  | writeWait => exact h

/-- A read lock given back, but not the last one, gives no other thread what it waits for. -/
lemma not_rwReady_unlockReader {counts : OrdMap ι ℤ} (hj : counts.find? j = l.readerCounts.find? j)
    (hactive : l.activeReaders - 1 ≠ 0) (h : ¬ RwReady j c p l) :
    ¬ RwReady j c p { l with readerCounts := counts, activeReaders := l.activeReaders - 1 } := by
  cases p with
  | enter => exact id
  | readWait =>
    have hiff : CanRead { l with readerCounts := counts, activeReaders := l.activeReaders - 1 } j ↔
        l.CanRead j := canRead_congr rfl rfl hj
    exact fun h' => h (hiff.1 h')
  | writeWait => exact fun h' => hactive h'.2

lemma find?_unlockReader_of_ne {count : ℤ} (hj : j ≠ i) :
    (if count - 1 = 0 then l.readerCounts.erase i else l.readerCounts.insert i (count - 1)).find? j =
      l.readerCounts.find? j := by
  split
  · exact find?_erase_of_ne hj
  · exact find?_insert_of_ne hj

/-- **Every section that gives another thread what it waits for wakes everybody.** -/
theorem rwMonitor_notifies : (rwMonitor (ι := ι)).Notifies Nonneg RwReady := by
  intro i c p t l j d q hl hij hnot hready
  have hj : j ≠ i := Ne.symm hij
  have hdoes := rwRun_does l i c p t
  generalize rwMonitor.run i c p t l = o at hdoes hready ⊢
  cases hdoes with
  | fail w e | readSleep | writeSleepOn => exact absurd hready hnot
  | read => exact absurd hready (not_rwReady_acquireReader hl hj hnot)
  | write => exact absurd hready not_rwReady_acquireWriter
  | writeSleep => exact absurd hready (not_rwReady_waiting hnot)
  | writeAwake | writeGiveUp | unlockWriter => rfl
  | unlockReader count hc hw hfind hpos =>
    by_cases hzero : l.activeReaders - 1 = 0
    · exact if_pos hzero
    · exact absurd hready (not_rwReady_unlockReader (find?_unlockReader_of_ne hj) hzero hnot)

theorem rwMonitor_sleepsUnready : (rwMonitor (ι := ι)).SleepsUnready RwReady := by
  intro i c p t l q hnext
  have hdoes := rwRun_does l i c p t
  generalize rwMonitor.run i c p t l = o at hdoes hnext ⊢
  cases hdoes with
  | readSleep mode hc h | writeSleep mode hc hp h | writeSleepOn mode hc hp h =>
    cases hnext
    exact h
  | _ => cases hnext

end WakeUps

/-! ### The counts and the history -/

structure Agrees (l : HostRWLock ι) (h : Holders ι) : Prop where
  counts : ∀ i, (l.readerCounts.find? i).getD 0 = h.reads i
  positive : ∀ i n, l.readerCounts.find? i = some n → 0 < n
  sum : l.activeReaders = l.readerCounts.sum
  writer : ∀ i, l.IsWriter i ↔ h.writer = some i
  excl : l.writerActive = true → l.activeReaders = 0

section Agrees

variable {l : HostRWLock ι} {h : Holders ι} {i : ι} {n : ℤ}

lemma agrees_init : Agrees ({} : HostRWLock ι) ⟨fun _ => 0, none⟩ :=
  ⟨fun _ => rfl, nofun, rfl, fun _ => iff_of_false nofun nofun, nofun⟩

section

variable (ha : Agrees l h)
include ha

lemma Agrees.mem_counts (hm : (i, n) ∈ l.readerCounts.entries) : 0 < n ∧ n = h.reads i := by
  have hfind := find?_eq_some.2 hm
  refine ⟨ha.positive i n hfind, ?_⟩
  rw [← ha.counts i, hfind, getD_some]

lemma Agrees.values_nonneg : ∀ n ∈ l.readerCounts.entries.map Prod.snd, (0 : ℤ) ≤ n := by
  intro n hn
  obtain ⟨⟨j, m⟩, hm, rfl⟩ := List.mem_map.1 hn
  exact (ha.mem_counts hm).1.le

lemma Agrees.nonneg : Nonneg l := by
  unfold Nonneg
  rw [ha.sum]
  exact List.sum_nonneg ha.values_nonneg

lemma Agrees.reads_le (i : ι) : (h.reads i : ℤ) ≤ l.activeReaders := by
  cases hfind : l.readerCounts.find? i with
  | none =>
    rw [← ha.counts i, hfind]
    exact ha.nonneg
  | some n =>
    rw [ha.sum, ← ha.counts i, hfind]
    exact List.single_le_sum ha.values_nonneg _ (List.mem_map.2 ⟨_, find?_eq_some.1 hfind, rfl⟩)

lemma Agrees.reads_eq_zero (hzero : l.activeReaders = 0) (i : ι) : h.reads i = 0 := by
  have := ha.reads_le i
  omega

lemma Agrees.find?_eq_none (hzero : h.reads i = 0) : l.readerCounts.find? i = none := by
  cases hfind : l.readerCounts.find? i with
  | none => rfl
  | some n =>
    have hcount := ha.counts i
    have hpos := ha.positive i n hfind
    rw [hfind, getD_some] at hcount
    omega

end

lemma Agrees.waiting (ha : Agrees l h) (n : ℤ) : Agrees { l with waitingWriters := n } h :=
  { ha with }

lemma Agrees.not_active (ha : Agrees l h) (hr : l.CanRead i ∨ (l.readerCounts.find? i).isSome) :
    l.writerActive = false := by
  obtain hr | hr := hr
  · exact hr.1
  · by_contra hactive
    have hzero := ha.reads_eq_zero (ha.excl (by simpa using hactive)) i
    rw [ha.find?_eq_none hzero] at hr
    cases hr

lemma Agrees.read (ha : Agrees l h) (hr : l.CanRead i ∨ (l.readerCounts.find? i).isSome) :
    Agrees (l.acquireReader i) { h with reads := update h.reads i (h.reads i + 1) } := by
  have hactive := ha.not_active hr
  have hcount := ha.counts i
  refine ⟨fun j => ?_, fun j n hj => ?_, ?_, ha.writer, fun hw => ?_⟩
  · dsimp only
    by_cases hj : j = i
    · subst hj
      rw [update_self, acquireReader, find?_insert_self, getD_some, hcount]
      push_cast
      rfl
    · rw [update_of_ne hj, acquireReader_find?_of_ne hj]
      exact ha.counts j
  · by_cases hji : j = i
    · subst hji
      rw [acquireReader, find?_insert_self, Option.some.injEq] at hj
      omega
    · rw [acquireReader_find?_of_ne hji] at hj
      exact ha.positive j n hj
  · rw [acquireReader]
    dsimp only
    rw [sum_insert, ← ha.sum]
    omega
  · rw [show (l.acquireReader i).writerActive = false from hactive] at hw
    cases hw

lemma Agrees.write (ha : Agrees l h) (hw : l.CanWrite) : Agrees (l.acquireWriter i) { h with writer := some i } :=
  ⟨ha.counts, ha.positive, ha.sum, fun _ => ⟨fun hj => hj.2, fun hj => ⟨rfl, hj⟩⟩, fun _ => hw.2⟩

lemma Agrees.unlockWriter (ha : Agrees l h) :
    Agrees { l with writerActive := false, writerTid := none } { h with writer := none } :=
  ⟨ha.counts, ha.positive, ha.sum, fun _ => iff_of_false nofun nofun, nofun⟩

lemma Agrees.unlockReader (ha : Agrees l h) {count : ℤ} (hfind : l.readerCounts.find? i = some count) :
    Agrees { l with
        readerCounts := if count - 1 = 0 then l.readerCounts.erase i else l.readerCounts.insert i (count - 1)
        activeReaders := l.activeReaders - 1 } { h with reads := update h.reads i (h.reads i - 1) } := by
  have hcount := ha.counts i
  rw [hfind, getD_some] at hcount
  have hpos := ha.positive i count hfind
  refine ⟨fun j => ?_, fun j n hj => ?_, ?_, ha.writer, fun hw => ?_⟩
  · dsimp only
    by_cases hj : j = i
    · subst hj
      rw [update_self]
      split
      case isTrue hone =>
        rw [find?_erase_self, getD_none]
        omega
      case isFalse hmore =>
        rw [find?_insert_self, getD_some]
        omega
    · rw [update_of_ne hj, find?_unlockReader_of_ne hj]
      exact ha.counts j
  · dsimp only at hj
    by_cases hji : j = i
    · subst hji
      split at hj
      case isTrue hone =>
        rw [find?_erase_self] at hj
        cases hj
      case isFalse hmore =>
        rw [find?_insert_self, Option.some.injEq] at hj
        omega
    · rw [find?_unlockReader_of_ne hji] at hj
      exact ha.positive j n hj
  · dsimp only
    split
    case isTrue hone =>
      rw [sum_erase, hfind, getD_some, ← ha.sum]
      omega
    case isFalse hmore =>
      rw [sum_insert, hfind, getD_some, ← ha.sum]
      omega
  · have hzero := ha.excl hw
    have := ha.reads_le i
    omega

end Agrees

/-! ### Runs -/

def RwCall.At (c : RwCall) : RwPlace → Prop
  | .enter => True
  | .readWait => ∃ mode, c = .rdlock mode
  | .writeWait => ∃ mode, c = .wrlock mode

def WritePlace (x : Option (RwCall × RwPlace)) : Prop := ∃ c, x = some (c, .writeWait)

structure RwInv (s : RwState ι) : Prop where
  agrees : Agrees s.data (holders s.log)
  places : ∀ i c p, s.place i = some (c, p) → c.At p
  waiting : ∃ n, Tally WritePlace s.place n ∧ s.data.waitingWriters = n

section Runs

variable {s s' : RwState ι} {e : Event ι RwCall Sight} {i pick : ι} {c : RwCall} {p : RwPlace}

lemma rwInv_init : RwInv (State.init {} : RwState ι) :=
  ⟨agrees_init, nofun, 0, .zero fun _ => nofun, rfl⟩

lemma not_writePlace (hp : p ≠ .writeWait) : ¬ WritePlace (some (c, p)) := by
  rintro ⟨d, ⟨⟩⟩
  exact hp rfl

lemma not_writePlace_none : ¬ WritePlace none := nofun

lemma RwInv.after (hi : RwInv s) {c : RwCall} {pick : ι} {o : Outcome (HostRWLock ι) RwPlace Ret}
    (ha : Agrees o.data (holders (o.next.log i c s.log))) (hat : ∀ d p, o.next.place c = some (d, p) → d.At p)
    (hwait : ∃ n, Tally WritePlace (update s.place i (o.next.place c)) n ∧ o.data.waitingWriters = n) :
    RwInv (s.after i c pick o) := by
  have hplace : (s.after i c pick o).place = update s.place i (o.next.place c) := place_after
  refine ⟨ha, fun j d p hj => ?_, ?_⟩
  · rw [hplace] at hj
    obtain ⟨rfl, hnew⟩ | ⟨-, hold⟩ := of_update hj
    · exact hat d p hnew
    · exact hi.places j d p hold
  · rw [hplace]
    exact hwait

lemma RwInv.after_ret (hi : RwInv s) {l : HostRWLock ι} {w : Wake} {r : Ret} {n : ℕ}
    (ha : Agrees l ((holders s.log).after i c r)) (ht : Tally WritePlace (update s.place i none) n)
    (hn : l.waitingWriters = n) : RwInv (s.after i c pick ⟨l, w, .ret r⟩) :=
  hi.after ha nofun ⟨n, ht, hn⟩

lemma RwInv.not_writePlace (hi : RwInv s) (hplace : s.place i = some (c, p))
    (h : ∀ mode, c = .wrlock mode → p = .enter) : ¬ WritePlace (s.place i) := by
  rw [hplace]
  refine Sync.not_writePlace fun hp => ?_
  subst hp
  obtain ⟨mode, hc⟩ := hi.places i c _ hplace
  cases h mode hc

lemma RwInv.writePlace (hi : RwInv s) (hplace : s.place i = some (c, p)) (mode : LockMode) (hc : c = .wrlock mode)
    (hp : p ≠ .enter) : WritePlace (s.place i) := by
  have hat := hi.places i c p hplace
  subst hc
  rw [hplace]
  cases p with
  | enter => exact absurd rfl hp
  | readWait =>
    obtain ⟨mode', h⟩ := hat
    cases h
  | writeWait => exact ⟨_, rfl⟩

lemma rwInv_run (hi : RwInv s) {t : Sight} (hact : s.active i = some ⟨c, p, false⟩) :
    RwInv (s.after i c pick (rwMonitor.run i c p t s.data)) := by
  have hplace : s.place i = some (c, p) := place_of_active hact
  obtain ⟨n, htally, hn⟩ := hi.waiting
  have hnot := hi.not_writePlace hplace
  have hwrites := hi.writePlace hplace
  have hdoes := rwRun_does s.data i c p t
  generalize rwMonitor.run i c p t s.data = o at hdoes
  cases hdoes with
  | fail w e hp => exact hi.after_ret hi.agrees (htally.keep (iff_of_false (hnot hp) not_writePlace_none)) hn
  | read mode hc hr =>
    subst hc
    exact hi.after_ret (hi.agrees.read hr) (htally.keep (iff_of_false (hnot nofun) not_writePlace_none)) hn
  | readSleep mode hc =>
    subst hc
    refine hi.after hi.agrees (fun d q h => ?_)
      ⟨n, htally.keep (iff_of_false (hnot nofun) (not_writePlace (by decide))), hn⟩
    cases h
    exact ⟨mode, rfl⟩
  | write mode w hc hp hw =>
    subst hc hp
    exact hi.after_ret (hi.agrees.write hw)
      (htally.keep (iff_of_false (hnot fun _ _ => rfl) not_writePlace_none)) hn
  | writeSleep mode hc hp =>
    subst hc hp
    refine hi.after (hi.agrees.waiting _) (fun d q h => ?_)
      ⟨n + 1, htally.gain (hnot fun _ _ => rfl) ⟨_, rfl⟩, ?_⟩
    · cases h
      exact ⟨mode, rfl⟩
    · rw [hn]
      rfl
  | writeAwake mode hc hp hw =>
    have hwaits := hwrites mode hc hp
    have hpos := htally.pos hwaits
    subst hc
    refine hi.after_ret ((hi.agrees.waiting _).write hw) (htally.loss hwaits not_writePlace_none) ?_
    show s.data.waitingWriters - 1 = _
    omega
  | writeGiveUp mode e hc hp =>
    have hwaits := hwrites mode hc hp
    have hpos := htally.pos hwaits
    refine hi.after_ret (hi.agrees.waiting _) (htally.loss hwaits not_writePlace_none) ?_
    show s.data.waitingWriters - 1 = _
    omega
  | writeSleepOn mode hc hp =>
    refine hi.after hi.agrees (fun d q h => ?_) ⟨n, htally.keep (iff_of_true (hwrites mode hc hp) ⟨_, rfl⟩), hn⟩
    cases h
    exact ⟨mode, hc⟩
  | unlockWriter hc hw =>
    subst hc
    refine hi.after_ret ?_ (htally.keep (iff_of_false (hnot nofun) not_writePlace_none)) hn
    simp only [Holders.after, if_pos ((hi.agrees.writer i).1 hw)]
    exact hi.agrees.unlockWriter
  | unlockReader count hc hw hfind =>
    subst hc
    refine hi.after_ret ?_ (htally.keep (iff_of_false (hnot nofun) not_writePlace_none)) hn
    simp only [Holders.after, if_neg (mt (hi.agrees.writer i).2 hw)]
    exact hi.agrees.unlockReader hfind

theorem rwInv_step (hi : RwInv s) (h : rwMonitor.step s e = some s') : RwInv s' := by
  obtain ⟨i, c, rfl, hnone, hdata, hlog, hplace⟩ | ⟨i, rfl, hdata, hlog, hplace⟩ | ⟨i, t, pick, c, p, rfl, hact, rfl⟩ :=
    step_cases h
  · obtain ⟨n, htally, hn⟩ := hi.waiting
    refine ⟨by rw [hdata, hlog]; exact hi.agrees, fun j d p hj => ?_, n, ?_, by rw [hdata]; exact hn⟩
    · rw [hplace] at hj
      obtain ⟨rfl, hnew⟩ | ⟨-, hold⟩ := of_update hj
      · cases hnew
        trivial
      · exact hi.places j d p hold
    · rw [hplace]
      refine htally.keep (iff_of_false ?_ (not_writePlace (show RwPlace.enter ≠ .writeWait by decide)))
      rw [hnone]
      exact not_writePlace_none
  · refine ⟨by rw [hdata, hlog]; exact hi.agrees, ?_, ?_⟩
    · rw [hplace]
      exact hi.places
    · rw [hplace, hdata]
      exact hi.waiting
  · exact rwInv_run hi hact

lemma RwInv.unlock (hi : RwInv s) (hw : (holders s.log).Without i) (t : Sight) :
    rwMonitor.run i .unlock .enter t s.data = ⟨s.data, .nobody, .ret (.err .EINVAL)⟩ := by
  show s.data.unlock i = _
  rw [HostRWLock.unlock, if_neg (mt (hi.agrees.writer i).1 hw.2), hi.agrees.find?_eq_none hw.1]

/-- **Writer-preferring locks.** In every run a writer excludes the readers, the counts are those of the history, an
unlock by a thread without a lock changes nothing, and no wake-up is lost. -/
theorem reach_rwOk (h : rwSystem.Reachable s) : RwOk s := by
  have hinv : RwInv s ∧ Attentive RwReady s := by
    refine h.invariant (I := fun s => RwInv s ∧ Attentive RwReady s) ?_ fun s e s' hi _ hstep => ?_
    · rintro _ ⟨l, rfl, rfl⟩
      exact ⟨rwInv_init, attentive_init _⟩
    · exact ⟨rwInv_step hi.1 hstep,
        attentive_step rwMonitor_notifies rwMonitor_sleepsUnready hi.1.agrees.nonneg hi.2 hstep⟩
  obtain ⟨hi, hattentive⟩ := hinv
  have ha := hi.agrees
  refine ⟨fun hw => ⟨ha.excl hw, ha.reads_eq_zero (ha.excl hw)⟩, fun i n => ha.mem_counts, ha.sum, ?_,
    fun i hw => hi.unlock hw, fun i c p t j d q _ _ => ?_, hattentive⟩
  · obtain ⟨n, ⟨W, hW, hcard⟩, hn⟩ := hi.waiting
    exact ⟨W, hW, by rw [hn, hcard]⟩
  · exact rwMonitor_notifies i c p t s.data j d q ha.nonneg

end Runs

/-- A thread has the write lock, and another one waits for it. -/
theorem rwOk_writer_waits : ∃ s : RwState ℕ, rwSystem.Reachable s ∧ AwaitsWrite s 1 ∧ RwOk s := by
  have h0 : rwSystem.Reachable (State.init {} : RwState ℕ) := .init ⟨{}, rfl, rfl⟩
  obtain ⟨s, hrun, hplace⟩ : ∃ s : RwState ℕ,
      [.call 0 (.wrlock .tryOnly), .run 0 ⟨.ok 0, false⟩ 0, .call 1 (.wrlock (.wait .realtime none)),
        .run 1 ⟨.ok 0, false⟩ 0].foldlM rwMonitor.step (State.init {}) = some s ∧
      s.place 1 = some (.wrlock (.wait .realtime none), .writeWait) := ⟨_, rfl, rfl⟩
  have hreach : rwSystem.Reachable s := h0.foldlM hrun
  exact ⟨s, hreach, ⟨_, hplace⟩, reach_rwOk hreach⟩

end CrossShim.Sync
