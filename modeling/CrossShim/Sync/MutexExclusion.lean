import CrossShim.Sync.MutexRuns

/-!
# Mutual exclusion

A mutex excludes host threads from each other, not the identities of one: the callback of a timer can lock a normal
mutex that its thread has, and unlock any mutex that its thread has (`callback_enters`).  In the runs in which no
identity uses the mutex while another one of its host thread has it, at most one identity has the mutex, and can
unlock it (`reach_mutexOk`).

The invariant (`Tidy`) ties the history of each thread to the levels at which it has the host mutex.
-/

namespace CrossShim.Sync

open Lib Function Monitor

variable {ι : Type*} [DecidableEq ι]

/-! ### Levels -/

/-- At how many levels a thread has the host mutex. -/
def RecMutex.levels (i : ι) : RecMutex ι → ℕ
  | .free => 0
  | .held j n => if j = i then n + 1 else 0

namespace RecMutex

variable {m m' : RecMutex ι} {i j : ι}

lemma levels_excl (hi : 0 < m.levels i) (hj : 0 < m.levels j) : i = j := by
  cases m with
  | free => exact absurd hi (lt_irrefl 0)
  | held k n =>
    simp only [levels] at hi hj
    split at hi <;> split at hj
    · simp_all
    all_goals exact absurd ‹_› (lt_irrefl 0)

lemma levels_lock? (h : m.lock? i = some m') :
    m'.levels i = m.levels i + 1 ∧ ∀ j, j ≠ i → m.levels j = 0 ∧ m'.levels j = 0 := by
  cases m with
  | free =>
    cases h
    exact ⟨by simp [levels], fun j hj => ⟨rfl, by simp [levels, hj.symm]⟩⟩
  | held k n =>
    simp only [lock?] at h
    split at h
    case isTrue hk =>
      cases h
      subst hk
      exact ⟨by simp [levels], fun j hj => ⟨by simp [levels, hj.symm], by simp [levels, hj.symm]⟩⟩
    case isFalse => cases h

lemma levels_of_lock?_none (h : m.lock? i = none) : m.levels i = 0 := by
  cases m with
  | free => cases h
  | held k n =>
    simp only [lock?] at h
    split at h
    case isTrue => cases h
    case isFalse hk => simp [levels, hk]

lemma levels_unlock (h : 0 < m.levels i) :
    m.unlock.levels i = m.levels i - 1 ∧ ∀ j, j ≠ i → m.levels j = 0 ∧ m.unlock.levels j = 0 := by
  cases m with
  | free => exact absurd h (lt_irrefl 0)
  | held k n =>
    have hk : k = i := by
      by_contra hk
      simp [levels, hk] at h
    subst hk
    cases n with
    | zero => exact ⟨by simp [levels, unlock], fun j hj => ⟨by simp [levels, hj.symm], rfl⟩⟩
    | succ n =>
      exact ⟨by simp [levels, unlock], fun j hj => ⟨by simp [levels, hj.symm], by simp [levels, unlock, hj.symm]⟩⟩

end RecMutex

/-! ### The invariant -/

/-- The locks of a host thread that are not unlocked are of one identity, as many as the thread has levels of the host
mutex; in a condition wait one level less. -/
def Charge (m : HostMutex ι) (net : ι → ℕ → ℕ) (waits : ι → Option (ℕ × ℕ)) (i : ι) (who : ℕ) : Prop :=
  (∀ k, k ≠ who → net i k = 0) ∧
    match waits i with
    | none => net i who = m.mtx.levels i
    | some (k, held) => k = who ∧ net i who = held ∧ held = m.mtx.levels i + 1

structure Tidy (m : HostMutex ι) (net : ι → ℕ → ℕ) (waits : ι → Option (ℕ × ℕ)) : Prop where
  type : m.type ≠ .recursive
  sole : ∀ i, ∃ who, Charge m net waits i who
  own : ∀ i, m.ownerThread = some i ↔ 0 < m.mtx.levels i ∧ waits i = none
  count : ∀ i, m.ownerThread = some i → m.lockCount = m.mtx.levels i
  idle : m.ownerThread = none → m.lockCount = 0

section Tidy

variable {m m' : HostMutex ι} {net net' : ι → ℕ → ℕ} {waits waits' : ι → Option (ℕ × ℕ)} {i : ι} {who held : ℕ}

lemma Charge.congr (h : Charge m net waits i who) (hn : net' i = net i) (hw : waits' i = waits i)
    (hl : m'.mtx.levels i = m.mtx.levels i) : Charge m' net' waits' i who := by
  unfold Charge at h ⊢
  rwa [hn, hw, hl]

lemma Charge.net_eq (h : Charge m net waits i who) (hw : waits i = none) : net i who = m.mtx.levels i := by
  have hc := h.2
  rwa [hw] at hc

lemma Charge.update (h : Charge m net waits i who) (hw : waits i = none) {n : ℕ} (hn : m'.mtx.levels i = n) :
    Charge m' (update net i (update (net i) who n)) waits i who := by
  refine ⟨fun k hk => ?_, ?_⟩
  · rw [update_self, update_of_ne hk]
    exact h.1 k hk
  · rw [hw]
    rw [update_self, update_self, hn]

variable (ht : Tidy m net waits)
include ht

lemma Tidy.charge (hw : waits i = none) (halone : ∀ k, k ≠ who → net i k = 0) :
    Charge m net waits i who := by
  obtain ⟨k, hk⟩ := ht.sole i
  by_cases hkw : k = who
  · exact hkw ▸ hk
  · obtain ⟨hothers, hk⟩ := hk
    rw [hw] at hk
    refine ⟨halone, ?_⟩
    rw [hw]
    rw [hothers who (Ne.symm hkw), ← hk, halone k hkw]

lemma Tidy.owns_iff : m.Owns i ↔ 0 < m.mtx.levels i ∧ waits i = none := by
  constructor
  · exact fun h => (ht.own i).1 h.1
  · intro h
    have ho := (ht.own i).2 h
    refine ⟨ho, ?_⟩
    rw [ht.count i ho]
    exact h.1

/-- **A step of one thread**, with nobody else at the host mutex before and after it. -/
lemma Tidy.step (htype : m'.type = m.type)
    (hothers : ∀ j, j ≠ i → m.mtx.levels j = 0 ∧ m'.mtx.levels j = 0) (hn : ∀ j, j ≠ i → net' j = net j)
    (hw : ∀ j, j ≠ i → waits' j = waits j) (hc : Charge m' net' waits' i who)
    (ho : (m'.ownerThread = some i ∧ (0 < m'.mtx.levels i ∧ waits' i = none) ∧ m'.lockCount = m'.mtx.levels i) ∨
      m'.ownerThread = none ∧ ¬(0 < m'.mtx.levels i ∧ waits' i = none) ∧ m'.lockCount = 0) :
    Tidy m' net' waits' ∧ ∀ j, j ≠ i → m'.mtx.levels j = m.mtx.levels j := by
  have hkeep (j : ι) (hj : j ≠ i) : m'.mtx.levels j = m.mtx.levels j := by rw [(hothers j hj).1, (hothers j hj).2]
  refine ⟨⟨htype ▸ ht.type, fun j => ?_, fun j => ?_, ?_, ?_⟩, hkeep⟩
  · by_cases hj : j = i
    · exact ⟨who, hj ▸ hc⟩
    · obtain ⟨k, hk⟩ := ht.sole j
      exact ⟨k, hk.congr (hn j hj) (hw j hj) (hkeep j hj)⟩
  · by_cases hj : j = i
    · subst hj
      obtain ⟨ho, hhas, -⟩ | ⟨ho, hnot, -⟩ := ho
      · exact iff_of_true ho hhas
      · exact iff_of_false (by simp [ho]) hnot
    · have hzero := (hothers j hj).2
      refine iff_of_false (fun h => ?_) fun h => by omega
      obtain ⟨ho, -⟩ | ⟨ho, -⟩ := ho
      · exact hj (Option.some.inj (h.symm.trans ho))
      · cases h.symm.trans ho
  · obtain ⟨ho, -, hcount⟩ | ⟨ho, -⟩ := ho <;> intro j hj <;> cases ho.symm.trans hj
    exact hcount
  · obtain ⟨ho, -⟩ | ⟨ho, -, hcount⟩ := ho <;> intro hj
    · cases ho.symm.trans hj
    · exact hcount

lemma Tidy.take (hw : waits i = none) (halone : ∀ k, k ≠ who → net i k = 0)
    (h : m.take i = some m') :
    Tidy m' (update net i (update (net i) who (net i who + 1))) waits ∧
      ∀ j, j ≠ i → m'.mtx.levels j = m.mtx.levels j := by
  obtain ⟨mtx, hl, rfl⟩ := Option.map_eq_some_iff.1 h
  obtain ⟨hself, hothers⟩ := RecMutex.levels_lock? hl
  -- the count was the number of levels, or zero if nobody had the mutex
  have hcount : m.lockCount = m.mtx.levels i := by
    cases ho : m.ownerThread with
    | none =>
      rw [ht.idle ho]
      by_contra hne
      have := (ht.own i).2 ⟨by omega, hw⟩
      rw [ho] at this
      cases this
    | some k =>
      by_cases hk : k = i
      · exact ht.count i (hk ▸ ho)
      · have := ((ht.own k).1 ho).1
        rw [(hothers k hk).1] at this
        exact absurd this (lt_irrefl 0)
  have hc := ht.charge hw halone
  refine ht.step rfl hothers (fun k hk => update_of_ne hk _ _) (fun _ _ => rfl) (hc.update hw ?_)
    (.inl ⟨rfl, ⟨by dsimp only; omega, hw⟩, ?_⟩)
  · rw [hself, hc.net_eq hw]
  · rw [hself, hcount]

lemma Tidy.unlock (ho : m.Owns i) (halone : ∀ k, k ≠ who → net i k = 0) :
    Tidy (m.unlock i).2 (update net i (update (net i) who (net i who - 1))) waits ∧
      ∀ j, j ≠ i → (m.unlock i).2.mtx.levels j = m.mtx.levels j := by
  obtain ⟨hpos, hw⟩ := ht.owns_iff.1 ho
  obtain ⟨hself, hothers⟩ := RecMutex.levels_unlock hpos
  have hcount := ht.count i ho.1
  have hc := ht.charge hw halone
  rw [HostMutex.unlock, if_neg (not_not.2 ho)]
  refine ht.step rfl hothers (fun k hk => update_of_ne hk _ _) (fun _ _ => rfl) (hc.update hw ?_) ?_
  · rw [hself, hc.net_eq hw]
  · dsimp only
    rw [ho.1, hcount, hself, hw]
    by_cases h0 : m.mtx.levels i - 1 = 0
    · exact .inr ⟨if_pos h0, by omega, h0⟩
    · exact .inl ⟨if_neg h0, ⟨by omega, rfl⟩, rfl⟩

lemma Tidy.release (ho : m.Owns i) (halone : ∀ k, k ≠ who → net i k = 0) :
    Tidy { m with mtx := m.mtx.unlock, ownerThread := none, lockCount := 0 } net
        (update waits i (some (who, m.lockCount))) ∧
      ∀ j, j ≠ i → m.mtx.unlock.levels j = m.mtx.levels j := by
  obtain ⟨hpos, hw⟩ := ht.owns_iff.1 ho
  obtain ⟨hself, hothers⟩ := RecMutex.levels_unlock hpos
  have hcount := ht.count i ho.1
  refine ht.step rfl hothers (fun _ _ => rfl) (fun k hk => update_of_ne hk _ _)
    (show Charge _ _ _ i who from ⟨halone, ?_⟩) (.inr ⟨rfl, fun h => ?_, rfl⟩)
  · rw [update_self]
    exact ⟨rfl, ((ht.charge hw halone).net_eq hw).trans hcount.symm, by dsimp only; omega⟩
  · rw [update_self] at h
    cases h.2

lemma Tidy.restore (hw : waits i = some (who, held)) (h : m.restoreOwnership i held = some m') :
    Tidy m' net (update waits i none) ∧ ∀ j, j ≠ i → m'.mtx.levels j = m.mtx.levels j := by
  obtain ⟨mtx, hl, rfl⟩ := Option.map_eq_some_iff.1 h
  obtain ⟨hself, hothers⟩ := RecMutex.levels_lock? hl
  obtain ⟨k, hk⟩ := ht.sole i
  have hc := hk.2
  rw [hw] at hc
  obtain ⟨rfl, hnet, hheld⟩ := hc
  refine ht.step rfl hothers (fun _ _ => rfl) (fun k hk => update_of_ne hk _ _)
    (show Charge _ _ _ i who from ⟨hk.1, ?_⟩) (.inl ⟨rfl, ⟨by dsimp only; omega, update_self ..⟩, ?_⟩)
  · rw [update_self]
    rw [hself, hnet, hheld]
  · rw [hself, hheld]

lemma Tidy.net_eq_zero (hw : waits i = none) (hl : m.mtx.levels i = 0) (k : ℕ) :
    net i k = 0 := by
  obtain ⟨who, hothers, hc⟩ := ht.sole i
  rw [hw] at hc
  by_cases hk : k = who
  · rw [hk, hc, hl]
  · exact hothers k hk

end Tidy

/-! ### Runs -/

structure MutexInv (s : MutexState ι) : Prop where
  tidy : Tidy s.data (net s.log) (waits s)
  places : ∀ i c p, s.place i = some (c, p) → c.At p
  blocked : ∀ i c p, s.place i = some (c, p) → p.Blocked → s.data.mtx.levels i = 0

section Runs

variable {s s' : MutexState ι} {e : Event ι LockCall Sight} {i pick : ι} {q : Option (LockCall × LockPlace)}
  {c : LockCall} {p : LockPlace} {t : Sight}

lemma waits_update (h : s'.place = update s.place i q) :
    waits s' = update (waits s) i (waitsAt q) := by
  have hwaits (s : MutexState ι) : waits s = waitsAt ∘ s.place := rfl
  rw [hwaits, h, comp_update, hwaits]

lemma waitsAt_none (h : ∀ held, p ≠ .reacquire held) : waitsAt (some (c, p)) = none := by
  cases p with
  | reacquire held => exact absurd rfl (h held)
  | _ => rfl

/-- An identity has the mutex if its locks are not all unlocked, unless its thread is in a condition wait. -/
lemma holding_iff (h : waits s i = none) {who : ℕ} : Holding s i who ↔ 0 < net s.log i who := by
  simp [Holding, h]

/-- **At most one identity has the mutex**, and can unlock it. -/
lemma MutexInv.ok (hi : MutexInv s) : MutexOk s := by
  have ht := hi.tidy
  -- an identity that has the mutex has a level of the host mutex, and is the one that its thread's locks are of
  have hhas (i : ι) (who : ℕ) (h : Holding s i who) :
      0 < s.data.mtx.levels i ∧ waits s i = none ∧ ∀ k, k ≠ who → net s.log i k = 0 := by
    obtain ⟨k, hothers, hc⟩ := ht.sole i
    have hk : who = k := by
      by_contra hne
      have := hothers who hne
      exact absurd h.1 (by omega)
    subst hk
    cases hw : waits s i with
    | none =>
      rw [hw] at hc
      exact ⟨hc ▸ h.1, rfl, hothers⟩
    | some x =>
      rw [hw] at hc
      obtain ⟨rfl, -, -⟩ := hc
      exact absurd hw (h.2 x.2)
  refine ⟨fun i who j who' h h' => ?_, fun i c t hplace hop h => ?_⟩
  · obtain ⟨hl, -, hsole⟩ := hhas i who h
    obtain ⟨hl', -, -⟩ := hhas j who' h'
    have hij := RecMutex.levels_excl hl hl'
    subst hij
    refine ⟨rfl, ?_⟩
    by_contra hne
    have := hsole who' (Ne.symm hne)
    exact absurd h'.1 (by omega)
  · obtain ⟨hl, hw, -⟩ := hhas i c.who h
    have ho := ht.owns_iff.2 ⟨hl, hw⟩
    refine ⟨(s.data.unlock i).2, ?_⟩
    simp only [mutexMonitor, HostMutex.runSection, hop]
    rw [show (s.data.unlock i).1 = .ok by rw [HostMutex.unlock, if_neg (not_not.2 ho)]]

lemma mutexInv_init {m : HostMutex ι} (hm : m.Idle) (htype : m.type ≠ .recursive) :
    MutexInv (State.init m : MutexState ι) := by
  obtain ⟨hmtx, howner, hcount⟩ := hm
  refine ⟨⟨htype, fun i => ⟨0, fun _ _ => rfl, ?_⟩, fun i => ?_, fun i h => ?_, fun _ => hcount⟩, nofun, nofun⟩
  · show 0 = m.mtx.levels i
    rw [hmtx]
    rfl
  · show m.ownerThread = some i ↔ 0 < m.mtx.levels i ∧ _
    rw [howner, hmtx]
    exact iff_of_false nofun fun h => absurd h.1 (lt_irrefl 0)
  · rw [show (State.init m : MutexState ι).data.ownerThread = none from howner] at h
    cases h

/-- What is left to show when a thread comes to a new place: the locks and the waits, the place, and the levels of the
other threads. -/
lemma MutexInv.moved (hi : MutexInv s) (hplace : s'.place = update s.place i q)
    (ht : Tidy s'.data (net s'.log) (update (waits s) i (waitsAt q))) (hat : ∀ d p, q = some (d, p) → d.At p)
    (hblocked : ∀ d p, q = some (d, p) → p.Blocked → s'.data.mtx.levels i = 0)
    (hkeep : ∀ j, j ≠ i → s'.data.mtx.levels j = s.data.mtx.levels j) : MutexInv s' := by
  refine ⟨?_, fun j d p hj => ?_, fun j d p hj hp => ?_⟩
  · rw [waits_update hplace]
    exact ht
  · rw [hplace] at hj
    obtain ⟨rfl, hnew⟩ | ⟨-, hold⟩ := of_update hj
    · exact hat d p hnew
    · exact hi.places j d p hold
  · rw [hplace] at hj
    obtain ⟨rfl, hnew⟩ | ⟨hji, hold⟩ := of_update hj
    · exact hblocked d p hnew hp
    · rw [hkeep j hji]
      exact hi.blocked j d p hold hp

lemma MutexInv.after (hi : MutexInv s) {c : LockCall} {pick : ι} {o : Outcome (HostMutex ι) LockPlace Ret}
    (ht : Tidy o.data (net (o.next.log i c s.log)) (update (waits s) i (waitsAt (o.next.place c))))
    (hat : ∀ d p, o.next.place c = some (d, p) → d.At p)
    (hblocked : ∀ d p, o.next.place c = some (d, p) → p.Blocked → o.data.mtx.levels i = 0)
    (hkeep : ∀ j, j ≠ i → o.data.mtx.levels j = s.data.mtx.levels j) : MutexInv (s.after i c pick o) :=
  hi.moved place_after ht hat hblocked hkeep

lemma MutexInv.after_ret (hi : MutexInv s) {m' : HostMutex ι} {w : Wake} {r : Ret}
    (ht : Tidy m' (net ((i, c, r) :: s.log)) (update (waits s) i none))
    (hkeep : ∀ j, j ≠ i → m'.mtx.levels j = s.data.mtx.levels j) : MutexInv (s.after i c pick ⟨m', w, .ret r⟩) :=
  hi.after ht nofun nofun hkeep

/-- No other identity of the thread has the mutex, when a call is made that must be alone. -/
lemma Alone.net_eq_zero (hc : Alone s (.run i t pick)) (hplace : s.place i = some (c, .enter)) (hw : waits s i = none)
    (hop : (c.op = .lock ∧ s.data.type = .normal) ∨ c.op = .unlock ∨ ∃ clockid abstime, c.op = .wait clockid abstime)
    (k : ℕ) (hk : k ≠ c.who) : net s.log i k = 0 := by
  have hnot := hc c hplace hop k hk
  rw [holding_iff hw] at hnot
  omega

lemma MutexInv.alone_take (hi : MutexInv s) (hc : Alone s (.run i t pick)) (hplace : s.place i = some (c, p))
    (hp : ∀ held, p ≠ .reacquire held) (hw : waits s i = none)
    (howns : p = .enter → s.data.Owns i → c.op = .lock ∧ s.data.type = .normal) (k : ℕ) (hk : k ≠ c.who) :
    net s.log i k = 0 := by
  by_cases hl : s.data.mtx.levels i = 0
  · exact hi.tidy.net_eq_zero hw hl k
  · -- a thread that has come to wait for the mutex has no level of it
    have henter : p = .enter := by
      by_contra hne
      refine hl (hi.blocked i c p hplace ?_)
      cases p with
      | enter => exact absurd rfl hne
      | acquire => exact .inl rfl
      | acquireUntil => exact .inr rfl
      | reacquire held => exact absurd rfl (hp held)
    subst henter
    have hlock := howns rfl (hi.tidy.owns_iff.2 ⟨Nat.pos_of_ne_zero hl, hw⟩)
    exact hc.net_eq_zero hplace hw (.inl hlock) k hk

lemma mutexInv_run (hi : MutexInv s) (hact : s.active i = some ⟨c, p, false⟩) (hc : Alone s (.run i t pick)) :
    MutexInv (s.after i c pick (mutexMonitor.run i c p t s.data)) := by
  have hplace : s.place i = some (c, p) := place_of_active hact
  have hwaits : waits s i = waitsAt (some (c, p)) := by rw [waits, hplace]
  have hsame (hp : ∀ held, p ≠ .reacquire held) : waits s i = none := by rw [hwaits, waitsAt_none hp]
  have hstay (h : waits s i = none) : update (waits s) i none = waits s := by
    rw [← h, update_eq_self]
  have hdoes := runSection_does (i := i) hi.tidy.type (hi.places i c p hplace) t
  show MutexInv (s.after i c pick (s.data.runSection i c p t))
  generalize s.data.runSection i c p t = o at hdoes
  cases hdoes with
  | fail w e hp =>
    refine hi.after_ret ?_ fun _ _ => rfl
    rw [hstay (hsame hp)]
    exact hi.tidy
  | block q hl hop hq hp =>
    have hwq : waitsAt (some (c, q)) = none := waitsAt_none fun held h => by
      subst h
      obtain h | h := hq <;> cases h
    refine hi.after ?_ (fun d p' h => ?_) (fun d p' h _ => ?_) fun _ _ => rfl
    · show Tidy s.data (net s.log) (update (waits s) i (waitsAt (some (c, q))))
      rw [hwq, hstay (hsame hp)]
      exact hi.tidy
    · cases h
      obtain rfl | rfl := hq
      · exact hop
      · exact hop
    · exact RecMutex.levels_of_lock?_none hl
  | take m' htake hop hp howns =>
    have hw := hsame hp
    have halone := hi.alone_take hc hplace hp hw howns
    obtain ⟨ht, hkeep⟩ := hi.tidy.take hw halone htake
    refine hi.after_ret ?_ hkeep
    have hnet : net ((i, c, Ret.ok) :: s.log) =
        update (net s.log) i (update (net s.log i) c.who (net s.log i c.who + 1)) := by
      simp only [net, netAfter]
      cases hop' : c.op <;> simp_all [LockOp.Locks]
    rw [hnet, hstay hw]
    exact ht
  | unlock hp hop ho =>
    subst hp
    have hw := hsame nofun
    have halone := hc.net_eq_zero hplace hw (.inr (.inl hop))
    obtain ⟨ht, hkeep⟩ := hi.tidy.unlock ho halone
    refine hi.after_ret ?_ hkeep
    have hnet : net ((i, c, Ret.ok) :: s.log) =
        update (net s.log) i (update (net s.log i) c.who (net s.log i c.who - 1)) := by
      simp only [net, netAfter, hop]
    rw [hnet, hstay hw]
    exact ht
  | release hp hop ho =>
    subst hp
    have hw := hsame nofun
    have halone := hc.net_eq_zero hplace hw (.inr (.inr hop))
    obtain ⟨ht, hkeep⟩ := hi.tidy.release ho halone
    refine hi.after ht (fun d p' h => ?_) (fun d p' h hp' => ?_) hkeep
    · cases h
      exact hop
    · cases h
      obtain h | h := hp' <;> cases h
  | sleepOn held hp =>
    subst hp
    refine hi.after ?_ (fun d p' h => ?_) (fun d p' h hp' => ?_) fun _ _ => rfl
    · show Tidy s.data (net s.log) (update (waits s) i (waitsAt (some (c, .reacquire held))))
      rw [← hwaits, update_eq_self]
      exact hi.tidy
    · cases h
      exact hi.places i c _ hplace
    · cases h
      obtain h | h := hp' <;> cases h
  | restore held m' r hp hm =>
    subst hp
    obtain ⟨ht, hkeep⟩ := hi.tidy.restore hwaits hm
    refine hi.after_ret ?_ hkeep
    obtain ⟨clockid, abstime, hop⟩ := hi.places i c _ hplace
    have hnet : net ((i, c, r) :: s.log) = net s.log := by
      cases r with
      | err e => rfl
      | ok => simp only [net, netAfter, hop]
    rw [hnet]
    exact ht

theorem mutexInv_step (hi : MutexInv s) (hc : Alone s e) (h : mutexMonitor.step s e = some s') : MutexInv s' := by
  obtain ⟨i, c, rfl, hnone, hdata, hlog, hplace⟩ | ⟨i, rfl, hdata, hlog, hplace⟩ | ⟨i, t, pick, c, p, rfl, hact, rfl⟩ :=
    step_cases h
  · refine hi.moved hplace ?_ (fun d p h => ?_) (fun d p h hp => ?_) fun j _ => by rw [hdata]
    · have hnow : waits s i = none := by
        rw [waits, hnone]
        rfl
      rw [hdata, hlog, show waitsAt (some (c, mutexMonitor.start c)) = waits s i from hnow.symm, update_eq_self]
      exact hi.tidy
    · cases h
      trivial
    · cases h
      obtain h | h := hp <;> cases h
  · have hsame : s'.place = update s.place i (s.place i) := by rw [hplace, update_eq_self]
    refine hi.moved hsame ?_ (hi.places i) (fun d p h hp => ?_) fun j _ => by rw [hdata]
    · rw [hdata, hlog, show waitsAt (s.place i) = waits s i from rfl, update_eq_self]
      exact hi.tidy
    · rw [hdata]
      exact hi.blocked i d p h hp
  · exact mutexInv_run hi hact hc

/-- **Mutual exclusion.**  In every run in which no identity locks a normal mutex, unlocks it or waits with it
while another identity of its host thread has it, at most one identity has the mutex, and its unlock succeeds. -/
theorem reach_mutexOk (h : mutexSystem.Reach Alone s) : MutexOk s := by
  have hinv : MutexInv s := by
    refine h.invariant ?_ fun _ _ _ hi hc hstep => mutexInv_step hi hc hstep
    rintro _ ⟨m, ⟨hidle, htype⟩, rfl⟩
    exact mutexInv_init hidle htype
  exact hinv.ok

end Runs

/-! ### Timer callbacks -/

def early : Sight := ⟨.ok 0, false⟩

/-- Two threads are about to lock a mutex that nobody has. -/
def locksCalled : MutexState ℕ :=
  ⟨{}, update (update (fun _ => none) 0 (some ⟨⟨0, .lock⟩, .enter, false⟩)) 1 (some ⟨⟨1, .lock⟩, .enter, false⟩), []⟩

/-- A thread locks a normal mutex, and another one has to wait. -/
theorem mutexOk_two_threads : ∃ s : MutexState ℕ, mutexSystem.Reach Alone s ∧ Holding s 0 0 ∧
    (mutexMonitor.step s (.run 1 early 0)).map (·.place 1) = some (some (⟨1, .lock⟩, .acquire)) ∧ MutexOk s := by
  have h0 : mutexSystem.Reach Alone (State.init {} : MutexState ℕ) :=
    .init ⟨{}, ⟨⟨rfl, rfl, rfl⟩, nofun⟩, rfl⟩
  have h₁ := System.Reach.step h0 (show Alone _ (.call 0 ⟨0, .lock⟩) from trivial) rfl
  have h₂ : mutexSystem.Reach Alone locksCalled := .step h₁ (show Alone _ (.call 1 ⟨1, .lock⟩) from trivial) rfl
  -- nobody has the mutex yet
  have halone : Alone locksCalled (.run 0 early 0) := fun _ _ _ _ _ h => absurd h.1 (lt_irrefl 0)
  obtain ⟨s, hstep, hlog, hplace, hother⟩ : ∃ s, mutexMonitor.step locksCalled (.run 0 early 0) = some s ∧
      s.log = [(0, ⟨0, .lock⟩, .ok)] ∧ s.place 0 = none ∧
      (mutexMonitor.step s (.run 1 early 0)).map (·.place 1) = some (some (⟨1, .lock⟩, .acquire)) :=
    ⟨_, rfl, rfl, rfl, rfl⟩
  have hreach : mutexSystem.Reach Alone s := .step h₂ halone hstep
  have hw : waits s 0 = none := by
    rw [waits, hplace]
    rfl
  refine ⟨s, hreach, ?_, hother, reach_mutexOk hreach⟩
  rw [holding_iff hw, hlog]
  decide

/-- A thread locks a normal mutex, and so does the callback of a timer that it processes. -/
theorem callback_enters : ¬ ∀ s : MutexState ℕ, mutexSystem.Reachable s → MutexOk s := by
  intro h
  have h0 : mutexSystem.Reachable (State.init {} : MutexState ℕ) :=
    .init ⟨{}, ⟨⟨rfl, rfl, rfl⟩, nofun⟩, rfl⟩
  obtain ⟨s, hrun, hlog, hplace⟩ : ∃ s : MutexState ℕ,
      [.call 0 ⟨0, .lock⟩, .run 0 early 0, .call 0 ⟨1, .lock⟩, .run 0 early 0].foldlM mutexMonitor.step
        (State.init {}) = some s ∧
      s.log = [(0, ⟨1, .lock⟩, .ok), (0, ⟨0, .lock⟩, .ok)] ∧ s.place 0 = none := ⟨_, rfl, rfl, rfl⟩
  have hw : waits s 0 = none := by
    rw [waits, hplace]
    rfl
  have hboth (who : ℕ) (hnet : 0 < net s.log 0 who) : Holding s 0 who := (holding_iff hw).2 hnet
  rw [hlog] at hboth
  have := (h s (h0.foldlM hrun)).1 0 0 0 1 (hboth 0 (by decide)) (hboth 1 (by decide))
  exact absurd this.2 (by decide)

end CrossShim.Sync
