import CrossShim.Threads.Registry

/-!
# The regions of registered threads

The regions of the two arenas are free or belong to one thread each: to a `pthread_create` under way, or to an entry of
the registry.  This needs that no stack of a caller is taken for one of the arena (`Separate`), and then it does not
matter to which entry an exit is credited.

In runs without stacks of the callers, a thread that runs also has an entry that is not completed.  This needs that no
thread exits at the lowest address of its stack: the entry below has it in its exit range too.
-/

namespace CrossShim.Threads

open Lib Function OrdMap State Kind Option

open Arena (regionOf)

/-! ### Holders -/

/-- The region of a kind that a `pthread_create` under way has. -/
def Phase.region : Kind → Phase → Option Word
  | .stack, .tookStack _ region _ => some region
  | .stack, .stacked _ stackTop => regionOf .stack stackTop
  | .stack, .tookTls _ stackTop _ _ => regionOf .stack stackTop
  | .stack, .ready _ stackTop _ => regionOf .stack stackTop
  | .tls, .tookTls _ _ region _ => some region
  | .tls, .ready _ _ tlsBase => regionOf .tls tlsBase
  | _, _ => none

def QemuThread.base (t : QemuThread) : Kind → Word
  | .stack => t.stackBase
  | .tls => t.tlsBase

/-- The `n`-th thread has a region: its creation is under way and has it, or its entry does. -/
def State.Holds (s : State) (k : Kind) (n : ℕ) (region : Word) : Prop :=
  n < 2 ^ 64 ∧ ((s.phase n).region k = some region ∨
    ∃ t, s.threads.find? (tid n) = some t ∧ regionOf k (t.base k) = some region)

def Phase.Entered : Phase → Prop
  | .registered _ _ => True
  | .running _ _ => True
  | .ended => True
  | _ => False

/-- The thread is about to run, or runs, on this stack. -/
def Phase.Live (stackTop stackSize : Word) (p : Phase) : Prop :=
  p = .registered stackTop stackSize ∨ p = .running stackTop stackSize

/-- An entry is of a thread that was never started, or of one with a stack of the arena. -/
def QemuThread.Shaped (t : QemuThread) : Prop :=
  (t.stackBase = 0 ∧ t.stackSize = 0 ∧ t.completed = true) ∨
    (regionOf .stack t.stackBase ≠ none ∧ t.stackSize = stack.size)

/-- The attributes of a creation that has its stack. -/
def Phase.attr? : Phase → Option Attr
  | .tookStack attr _ _ => some attr
  | .stacked attr _ => some attr
  | .tookTls attr _ _ _ => some attr
  | .ready attr _ _ => some attr
  | _ => none

/-- The invariant of a creation with these attributes. -/
def Phase.OnArena (p : Phase) : Prop := ∀ attr, p.attr? = some attr → attr.stackAddr = 0 ∧ p.region .stack ≠ none

/-- What is under `own` is known of runs in which every thread has a stack of the arena and exits inside it. -/
structure RegInv (own : Prop) (s : State) : Prop where
  unused : ∀ n, s.nextThreadId ≤ n → s.phase n = .idle
  small : ∀ n, s.phase n ≠ .idle → n < 2 ^ 64
  ids : ∀ id t, s.threads.find? id = some t → ∃ n, id = tid n ∧ n < 2 ^ 64 ∧ (s.phase n).Entered
  attr : own → ∀ n, (s.phase n).OnArena
  live : own → ∀ n stackTop stackSize, (s.phase n).Live stackTop stackSize →
    ∃ t, s.threads.find? (tid n) = some t ∧ t.stackBase = stackTop ∧ t.stackSize = stackSize ∧ t.completed = false
  shaped : own → ∀ id t, s.threads.find? id = some t → t.Shaped
  arena : ∀ k, (s.arena k).Inv k (s.Holds k)

/-- The condition on a step: ids do not wrap around, and no caller's stack ends where `recycle_thread_arena` takes it for
a region of the arena: in the arena, but for its first region, or in the region behind it. -/
def Separate (s : State) : Event → Prop
  | .create _ => s.nextThreadId < 2 ^ 64
  | .takeStack n => ∀ attr, s.phase n = .begun attr → attr.stackAddr ≠ 0 →
      ¬ (0x90100000 ≤ attr.stackAddr + attr.stackSize ∧ attr.stackAddr + attr.stackSize < 0xA0100000)
  | _ => True

instance : DecidableRel Separate := fun s e => by
  unfold Separate
  split <;> infer_instance

/-- The condition on a step: ids do not wrap around, no stack is a caller's, and no thread exits at the lowest address
of its stack. -/
def Orderly (s : State) : Event → Prop
  | .create _ => s.nextThreadId < 2 ^ 64
  | .takeStack n => ∀ attr, s.phase n = .begun attr → attr.stackAddr = 0
  | .exit n _ sp _ => ∀ stackTop stackSize, s.phase n = .running stackTop stackSize →
      sp ≠ stackTop - stackSize + 0x100
  | _ => True

instance : DecidableRel Orderly := fun s e => by
  unfold Orderly
  split <;> infer_instance

section Lemmas

variable {own : Prop} {s s' : State} {k : Kind} {m n : ℕ} {id r stackTop sp : Word} {t t' : QemuThread} {p : Phase}
  {v : Vmas} {recycled : Bool} {attr : Attr}

lemma Orderly.separate {e : Event} (h : Orderly s e) : Separate s e := by
  cases e with
  | create => exact h
  | takeStack n => exact fun attr hp hne => absurd (h attr hp) hne
  | _ => trivial

lemma tid_injective (hm : m < 2 ^ 64) (hn : n < 2 ^ 64) (h : tid m = tid n) : m = n := by
  have := congrArg BitVec.toNat h
  unfold tid at this
  rwa [BitVec.toNat_ofNat, BitVec.toNat_ofNat, Nat.mod_eq_of_lt hm, Nat.mod_eq_of_lt hn] at this

lemma Phase.Entered.region {p : Phase} (h : p.Entered) (k : Kind) : p.region k = none := by
  cases p <;> cases k <;> first | rfl | exact h.elim

lemma Phase.Live.ne_idle {stackSize : Word} (hl : p.Live stackTop stackSize) : p ≠ .idle := by
  rintro rfl
  rcases hl with hl | hl <;> cases hl

/-- What a step about the thread `n` leaves as it is: the phases and the entries of all others. -/
structure State.SameBut (s s' : State) (n : ℕ) : Prop where
  small : n < 2 ^ 64
  phase : ∀ m ≠ n, s'.phase m = s.phase m
  threads : ∀ id ≠ tid n, s'.threads.find? id = s.threads.find? id

lemma holds_cases (hs : s.SameBut s' n) (h : s'.Holds k m r) : (s.Holds k m r ∧ m ≠ n) ∨ (m = n ∧ s'.Holds k n r) := by
  by_cases hmn : m = n
  · subst hmn
    exact .inr ⟨rfl, h⟩
  · have hid : tid m ≠ tid n := fun heq => hmn (tid_injective h.1 hs.small heq)
    unfold State.Holds at h
    rw [hs.phase m hmn, hs.threads _ hid] at h
    exact .inl ⟨h, hmn⟩

lemma holds_of_goto (h : s'.Holds k m r) (hphase : s'.phase = update s.phase n p)
    (hthreads : s'.threads = s.threads) : s.Holds k m r ∨ (m = n ∧ p.region k = some r) := by
  obtain ⟨hm, h⟩ := h
  rw [hphase, hthreads] at h
  by_cases hmn : m = n
  · subst hmn
    rw [update_self] at h
    exact h.elim (fun h => .inr ⟨rfl, h⟩) fun h => .inl ⟨hm, .inr h⟩
  · rw [update_of_ne hmn] at h
    exact .inl ⟨hm, h⟩

lemma holds_of_insert (ht : s.threads.find? id = some t) (hb : ∀ k, t'.base k = t.base k)
    (hphase : s'.phase = s.phase) (hthreads : s'.threads = s.threads.insert id t') (h : s'.Holds k m r) :
    s.Holds k m r := by
  obtain ⟨hm, h⟩ := h
  rw [hphase, hthreads] at h
  refine ⟨hm, h.imp_right ?_⟩
  rintro ⟨u, hu, hr⟩
  rcases find?_insert_eq_some.1 hu with ⟨hid, rfl⟩ | ⟨-, hu⟩
  · rw [hb k] at hr
    exact ⟨t, hid ▸ ht, hr⟩
  · exact ⟨u, hu, hr⟩

lemma reclaim_arena (s : State) (id : Word) (t : QemuThread) (k : Kind) :
    (s.reclaim id t).arena k = (s.arena k).recycle k (t.base k) := by
  cases k <;> rfl

lemma failTls_stack : (s.failTls n attr stackTop).arena .stack =
    if attr.stackAddr = 0 then (s.arena .stack).recycle .stack stackTop else s.arena .stack := by
  unfold State.failTls
  split <;> rfl

lemma failTls_tls : (s.failTls n attr stackTop).arena .tls = s.arena .tls := by
  unfold State.failTls
  split
  · exact Arena.recycle_zero .tls (s.arena .tls)
  · rfl

lemma notifyThreadExit_goto (s : State) (order : List Word) (sp retval : Word) (finalize : Bool) (n : ℕ) (p : Phase) :
    (s.notifyThreadExit order sp retval finalize).goto n p =
      (s.goto n p).notifyThreadExit order sp retval finalize := by
  unfold State.notifyThreadExit
  have hthreads : (s.goto n p).threads = s.threads := rfl
  rw [hthreads]
  cases order.find? fun id => (s.threads.find? id).any (·.exitRange sp) with
  | none => rfl
  | some id =>
    dsimp only
    cases s.threads.find? id with
    | none => rfl
    | some t =>
      dsimp only
      split
      · rfl
      · split <;> rfl

lemma QemuThread.exitRange_iff (t : QemuThread) (sp : Word) :
    t.exitRange sp = true ↔ t.stackBase - t.stackSize + 0x100 ≤ sp ∧ sp ≤ t.stackBase + 0x100 := by
  simp [QemuThread.exitRange]

lemma State.Visits.credited {order : List Word} (hv : s.Visits order) (ht : s.threads.find? id = some t)
    (hr : t.exitRange sp = true)
    (hone : ∀ id' t', s.threads.find? id' = some t' → t'.exitRange sp = true → id' = id) :
    (order.find? fun id => (s.threads.find? id).any (·.exitRange sp)) = some id := by
  cases hfind : order.find? fun id => (s.threads.find? id).any (·.exitRange sp) with
  | none =>
    have hmem : id ∈ order := hv.mem_iff.2 (List.mem_map.2 ⟨(id, t), find?_eq_some.1 ht, rfl⟩)
    refine absurd ?_ (List.find?_eq_none.1 hfind id hmem)
    rw [ht]
    exact hr
  | some id' =>
    have hany := List.find?_some hfind
    obtain ⟨t', ht', hr'⟩ := (any_eq_true _ _).1 hany
    rw [hone id' t' ht' hr']

lemma reported_base (t : QemuThread) (retval : Word) (k : Kind) : (t.reported retval).base k = t.base k := by
  unfold QemuThread.reported
  split <;> cases k <;> rfl

lemma reported_stackSize (t : QemuThread) (retval : Word) : (t.reported retval).stackSize = t.stackSize := by
  unfold QemuThread.reported
  split <;> rfl

lemma reported_completed (t : QemuThread) (retval : Word) : (t.reported retval).completed = t.completed := by
  unfold QemuThread.reported
  split <;> rfl

section

variable (hi : RegInv own s)
include hi

lemma RegInv.entered (hn : n < 2 ^ 64) (ht : s.threads.find? (tid n) = some t) :
    (s.phase n).Entered := by
  obtain ⟨m, hm, hlt, hent⟩ := hi.ids _ _ ht
  rwa [tid_injective hn hlt hm]

lemma RegInv.no_entry (hn : n < 2 ^ 64) (h : ¬ (s.phase n).Entered) :
    s.threads.find? (tid n) = none := by
  by_contra hne
  obtain ⟨t, ht⟩ := ne_none_iff_exists'.1 hne
  exact h (hi.entered hn ht)

lemma RegInv.lt_next (hbegun : s.phase n ≠ .idle) : n < s.nextThreadId := by
  by_contra hle
  exact hbegun (hi.unused n (not_lt.1 hle))

lemma holds_of_failed (hn : n < 2 ^ 64) (hent : ¬ (s.phase n).Entered) (h : s'.Holds k m r)
    (hphase : s'.phase = update s.phase n p) (hthreads : s'.threads = s.threads) (hp : p.region k = none) :
    s.Holds k m r ∧ m ≠ n := by
  refine ⟨(holds_of_goto h hphase hthreads).resolve_right ?_, ?_⟩
  · rintro ⟨-, h⟩
    rw [hp] at h
    cases h
  rintro rfl
  obtain ⟨-, h⟩ := h
  rw [hphase, hthreads, update_self, hp, hi.no_entry hn hent] at h
  rcases h with h | ⟨t, h, -⟩ <;> cases h

/-! ### Kinds of steps -/

lemma RegInv.change (hs : s.SameBut s' n) (hnext : s.nextThreadId ≤ s'.nextThreadId)
    (hlt : n < s'.nextThreadId)
    (hentry : ∀ t, s'.threads.find? (tid n) = some t → (s'.phase n).Entered ∧ (own → t.Shaped))
    (hattr : own → (s'.phase n).OnArena)
    (hlive : own → ∀ stackTop stackSize, (s'.phase n).Live stackTop stackSize → ∃ t,
      s'.threads.find? (tid n) = some t ∧ t.stackBase = stackTop ∧ t.stackSize = stackSize ∧ t.completed = false)
    (harena : ∀ k, (s'.arena k).Inv k (s'.Holds k)) : RegInv own s' := by
  refine ⟨fun m hm => ?_, fun m hm => ?_, fun id t ht => ?_, fun ho m => ?_, fun ho m stackTop stackSize hl => ?_,
    fun ho id t ht => ?_, harena⟩
  · rw [hs.phase m (by omega)]
    exact hi.unused m (by omega)
  · by_cases hmn : m = n
    · rw [hmn]
      exact hs.small
    · rw [hs.phase m hmn] at hm
      exact hi.small m hm
  · by_cases hid : id = tid n
    · subst hid
      exact ⟨n, rfl, hs.small, (hentry t ht).1⟩
    · rw [hs.threads id hid] at ht
      obtain ⟨m, rfl, hm, hent⟩ := hi.ids id t ht
      have hmn : m ≠ n := fun h => hid (by rw [h])
      exact ⟨m, rfl, hm, by rwa [hs.phase m hmn]⟩
  · by_cases hmn : m = n
    · subst hmn
      exact hattr ho
    · rw [hs.phase m hmn]
      exact hi.attr ho m
  · by_cases hmn : m = n
    · subst hmn
      exact hlive ho stackTop stackSize hl
    · rw [hs.phase m hmn] at hl
      have hid : tid m ≠ tid n := fun h => hmn (tid_injective (hi.small m hl.ne_idle) hs.small h)
      rw [hs.threads _ hid]
      exact hi.live ho m stackTop stackSize hl
  · by_cases hid : id = tid n
    · subst hid
      exact (hentry t ht).2 ho
    · rw [hs.threads id hid] at ht
      exact hi.shaped ho id t ht

lemma RegInv.goto (hphase : s'.phase = update s.phase n p) (hthreads : s'.threads = s.threads)
    (hnext : s'.nextThreadId = s.nextThreadId) (hbegun : s.phase n ≠ .idle) (hent : (s.phase n).Entered → p.Entered)
    (hattr : own → p.OnArena)
    (hlive : ∀ stackTop stackSize, p.Live stackTop stackSize → (s.phase n).Live stackTop stackSize)
    (harena : ∀ k, (s'.arena k).Inv k (s'.Holds k)) : RegInv own s' := by
  have hn := hi.small n hbegun
  have hself : s'.phase n = p := by rw [hphase, update_self]
  refine hi.change ⟨hn, fun m hmn => by rw [hphase, update_of_ne hmn], fun id _ => by rw [hthreads]⟩ hnext.ge
    (hnext ▸ hi.lt_next hbegun) ?_ ?_ ?_ harena
  · rw [hself, hthreads]
    exact fun t ht => ⟨hent (hi.entered hn ht), fun ho => hi.shaped ho _ t ht⟩
  · rwa [hself]
  · rw [hself, hthreads]
    exact fun ho stackTop stackSize hl => hi.live ho n stackTop stackSize (hlive stackTop stackSize hl)

/-- An entry changes, but not its regions; it is completed only if its thread does not run. -/
lemma RegInv.insert (ht : s.threads.find? id = some t) (hphase : s'.phase = s.phase)
    (hthreads : s'.threads = s.threads.insert id t') (hnext : s'.nextThreadId = s.nextThreadId)
    (harena : s'.arena = s.arena) (hb : ∀ k, t'.base k = t.base k) (hsize : t'.stackSize = t.stackSize)
    (hc : own → t'.completed = t.completed ∨
      t'.completed = true ∧ ∀ n stackTop stackSize, id = tid n → ¬ (s.phase n).Live stackTop stackSize) :
    RegInv own s' := by
  obtain ⟨n, rfl, hn, hent⟩ := hi.ids id t ht
  have hbegun : s.phase n ≠ .idle := fun h => by rwa [h] at hent
  refine hi.change ⟨hn, fun m _ => by rw [hphase], fun id' hid => by rw [hthreads, find?_insert_of_ne hid]⟩ hnext.ge
    (hnext ▸ hi.lt_next hbegun) ?_ ?_ ?_ fun k => ?_
  · rw [hphase, hthreads, find?_insert_self]
    intro u hu
    cases hu
    have hb1 : t'.stackBase = t.stackBase := hb .stack
    refine ⟨hent, fun ho => ?_⟩
    rcases hi.shaped ho _ _ ht with ⟨h1, h2, h3⟩ | ⟨h1, h2⟩
    · refine .inl ⟨hb1.trans h1, hsize.trans h2, ?_⟩
      rcases hc ho with hc | ⟨hc, -⟩
      · exact hc.trans h3
      · exact hc
    · exact .inr ⟨hb1 ▸ h1, hsize.trans h2⟩
  · rw [hphase]
    exact fun ho => hi.attr ho n
  · rw [hphase, hthreads, find?_insert_self]
    intro ho stackTop stackSize hl
    obtain ⟨u, hu, h1, h2, h3⟩ := hi.live ho n stackTop stackSize hl
    rw [ht] at hu
    cases hu
    refine ⟨t', rfl, (hb .stack).trans h1, hsize.trans h2, ?_⟩
    rcases hc ho with hc | ⟨-, hdead⟩
    · exact hc.trans h3
    · exact absurd hl (hdead n stackTop stackSize rfl)
  · rw [harena]
    exact (hi.arena k).mono fun m r h => holds_of_insert ht hb hphase hthreads h

lemma RegInv.push (hn : s.Holds k n r) (hholds : ∀ m r, s'.Holds k m r → s.Holds k m r ∧ m ≠ n) :
    ((s.arena k).push r).Inv k (s'.Holds k) := by
  refine (hi.arena k).push hn fun m r h => ?_
  obtain ⟨hm, hmn⟩ := hholds m r h
  refine ⟨hm, ?_⟩
  rintro rfl
  exact hmn ((hi.arena k).unique m n r hm hn)

lemma RegInv.recycle {a : Arena} (ha : a = s.arena k) {address : Word}
    (haddr : ∀ r, regionOf k address = some r → s.Holds k n r) (hholds : ∀ m r, s'.Holds k m r → s.Holds k m r ∧ m ≠ n) :
    (a.recycle k address).Inv k (s'.Holds k) := by
  subst ha
  rw [Arena.recycle_eq]
  cases hr : regionOf k address with
  | none => exact (hi.arena k).mono fun m r h => (hholds m r h).1
  | some r => exact hi.push (haddr r hr) hholds

lemma RegInv.reclaim (ht : s.threads.find? id = some t)
    (hdead : own → ∀ n stackTop stackSize, id = tid n → ¬ (s.phase n).Live stackTop stackSize) :
    RegInv own ({ s with vmas := v }.reclaim id t) := by
  obtain ⟨n, rfl, hn, hent⟩ := hi.ids id t ht
  have hsame : s.SameBut ({ s with vmas := v }.reclaim (tid n) t) n :=
    ⟨hn, fun _ _ => rfl, fun _ hid => find?_erase_of_ne hid⟩
  have hnone : ({ s with vmas := v }.reclaim (tid n) t).threads.find? (tid n) = none := find?_erase_self
  refine hi.change hsame le_rfl (hi.lt_next fun h => by rwa [h] at hent) (fun u hu => ?_) (fun ho => hi.attr ho n)
    (fun ho stackTop stackSize hl => absurd hl (hdead ho n stackTop stackSize rfl)) fun k => ?_
  · rw [hnone] at hu
    cases hu
  · rw [reclaim_arena]
    refine hi.recycle rfl (fun r hr => ⟨hn, .inr ⟨t, ht, hr⟩⟩) fun m r h => (holds_cases hsame h).resolve_right ?_
    rintro ⟨-, -, h | ⟨u, hu, -⟩⟩
    · rw [reclaim_phase, hent.region k] at h
      cases h
    · rw [hnone] at hu
      cases hu

lemma RegInv.new (hwrap : s.nextThreadId < 2 ^ 64) {p : Phase} (hattr : p.attr? = none)
    (hlive : ∀ stackTop stackSize, ¬ p.Live stackTop stackSize) (hregion : ∀ k, p.region k = none)
    (hnext : s'.nextThreadId = s.nextThreadId + 1) (hphase : s'.phase = Function.update s.phase s.nextThreadId p)
    (harena : s'.arena = s.arena)
    (hothers : ∀ id ≠ tid s.nextThreadId, s'.threads.find? id = s.threads.find? id)
    (hentry : ∀ t, s'.threads.find? (tid s.nextThreadId) = some t → p.Entered ∧ t.Shaped ∧ ∀ k, t.base k = 0) :
    RegInv own s' := by
  have hself : s'.phase s.nextThreadId = p := by rw [hphase, update_self]
  have hsame : s.SameBut s' s.nextThreadId := ⟨hwrap, fun m hm => by rw [hphase, update_of_ne hm], hothers⟩
  refine hi.change hsame (by omega) (by omega) ?_ ?_ ?_ fun k => ?_
  · rw [hself]
    exact fun t ht => ⟨(hentry t ht).1, fun _ => (hentry t ht).2.1⟩
  · rw [hself]
    exact fun _ attr h => by simp [hattr] at h
  · rw [hself]
    exact fun _ stackTop stackSize hl => absurd hl (hlive stackTop stackSize)
  · rw [harena]
    refine (hi.arena k).mono fun m r h => ?_
    rcases holds_cases hsame h with ⟨h, -⟩ | ⟨rfl, -, h | ⟨t, ht, hr⟩⟩
    · exact h
    · rw [hself, hregion] at h
      cases h
    · rw [(hentry t ht).2.2 k] at hr
      exact absurd rfl (ite_none_right_eq_some.1 hr).1.1

lemma RegInv.unstarted (hwrap : s.nextThreadId < 2 ^ 64) (detached : Bool) :
    RegInv own ({ s with
      nextThreadId := s.nextThreadId + 1
      threads := s.threads.insert (tid s.nextThreadId) ⟨0, 0, 0, 0, 0, detached, false, true, false, 0⟩ }.goto
        s.nextThreadId .ended) := by
  refine hi.new (p := .ended) hwrap rfl nofun (by rintro (_ | _) <;> rfl) rfl rfl rfl
    (fun _ hid => find?_insert_of_ne hid) fun t ht => ?_
  cases find?_insert_self.symm.trans ht
  exact ⟨trivial, .inl ⟨rfl, rfl, rfl⟩, by rintro (_ | _) <;> rfl⟩

lemma RegInv.begun (hwrap : s.nextThreadId < 2 ^ 64) :
    RegInv own ({ s with nextThreadId := s.nextThreadId + 1 }.goto s.nextThreadId (.begun attr)) := by
  refine hi.new (p := .begun attr) hwrap rfl nofun (by rintro (_ | _) <;> rfl) rfl rfl rfl (fun _ _ => rfl)
    fun t ht => ?_
  have hent := hi.entered hwrap ht
  rw [hi.unused _ le_rfl] at hent
  exact hent.elim

/-! ### The steps of a creation -/

lemma RegInv.arena_of_goto (hphase : s'.phase = update s.phase n p)
    (hthreads : s'.threads = s.threads) (hsmall : n < 2 ^ 64) (harena : s'.arena k = s.arena k)
    (hp : ∀ r, p.region k = some r → (s.phase n).region k = some r) : (s'.arena k).Inv k (s'.Holds k) := by
  rw [harena]
  refine (hi.arena k).mono fun m r h => ?_
  rcases holds_of_goto h hphase hthreads with h | ⟨rfl, h⟩
  · exact h
  · exact ⟨hsmall, .inl (hp r h)⟩

/-- A thread goes on with the regions it has. -/
lemma RegInv.move (hbegun : s.phase n ≠ .idle) (hent : (s.phase n).Entered → p.Entered)
    (hattr : own → p.OnArena)
    (hlive : ∀ stackTop stackSize, p.Live stackTop stackSize → (s.phase n).Live stackTop stackSize)
    (hp : ∀ k r, p.region k = some r → (s.phase n).region k = some r) : RegInv own ({ s with vmas := v }.goto n p) :=
  hi.goto rfl rfl rfl hbegun hent hattr hlive fun k => hi.arena_of_goto rfl rfl (hi.small n hbegun) rfl (hp k)

/-- A caller's stack is not taken for a region. -/
lemma RegInv.callerStack (hp : s.phase n = .begun attr) (h0 : own → attr.stackAddr = 0)
    (hne : attr.stackAddr ≠ 0)
    (hout : ¬ (0x90100000 ≤ attr.stackAddr + attr.stackSize ∧ attr.stackAddr + attr.stackSize < 0xA0100000)) :
    RegInv own (s.goto n (.stacked attr (attr.stackAddr + attr.stackSize - 0x100))) := by
  refine hi.move (v := s.vmas) (by rw [hp]; simp) (by rw [hp]; exact id) (fun ho => absurd (h0 ho) hne) nofun ?_
  rintro (_ | _) r hr
  · refine absurd (ite_none_right_eq_some.1 hr).1.2 fun h => hout ?_
    simp only [base, ceiling, offset] at h
    bv_omega
  · cases hr

lemma RegInv.tookStack (hp : s.phase n = .begun attr) (h0 : attr.stackAddr = 0) {a : Arena}
    (ht : (s.arena .stack).take .stack = some ((r, recycled), a)) :
    RegInv own ((s.setArena .stack a).goto n (.tookStack attr r recycled)) := by
  have hbegun : s.phase n ≠ .idle := by rw [hp]; simp
  refine hi.goto (p := .tookStack attr r recycled) rfl rfl rfl hbegun (by rw [hp]; exact id)
    (fun _ _ h => by cases h; exact ⟨h0, nofun⟩) nofun fun k => ?_
  cases k with
  | stack =>
    refine ((hi.arena .stack).take (n := n) (by exact ht) fun m r h => ?_).1
    rcases holds_of_goto (s := s) (n := n) h rfl rfl with h | ⟨hm, hr⟩
    · exact .inl h
    · exact .inr ⟨hm, (some.inj hr).symm⟩
  | tls => exact hi.arena_of_goto rfl rfl (hi.small n hbegun) rfl nofun

lemma RegInv.stacked (hp : s.phase n = .tookStack attr r recycled) :
    RegInv own ({ s with vmas := v }.goto n (.stacked attr (r + stack.offset))) := by
  have hbegun : s.phase n ≠ .idle := by rw [hp]; simp
  have hsub : r + stack.offset - stack.offset = r := by bv_omega
  obtain ⟨⟨i, hslot⟩, -⟩ := (hi.arena .stack).held n r ⟨hi.small n hbegun, .inl (by rw [hp]; rfl)⟩
  have hregion : regionOf .stack (r + stack.offset) = some r := by
    rw [← hsub] at hslot
    rw [hslot.regionOf, hsub]
  refine hi.move hbegun (by rw [hp]; exact id) (fun ho attr h => ?_) nofun ?_
  · have hon := hi.attr ho n
    rw [hp] at hon
    exact ⟨(hon attr h).1, by simp [Phase.region, hregion]⟩
  · rw [hp]
    rintro (_ | _)
    · simp only [Phase.region, hregion]
      exact fun _ h => h
    · exact nofun

lemma RegInv.unstacked {a : Arena} (hp : s.phase n = .tookStack attr r recycled)
    (ha : a = s.arena .stack ∨ a = (s.arena .stack).push r) :
    RegInv own ({ s.setArena .stack a with vmas := v }.goto n (.failed eagain)) := by
  have hbegun : s.phase n ≠ .idle := by rw [hp]; simp
  have hsmall := hi.small n hbegun
  have hent : ¬ (s.phase n).Entered := by rw [hp]; exact id
  refine hi.goto (p := .failed eagain) rfl rfl rfl hbegun (fun h => absurd h hent) nofun nofun fun k => ?_
  have hholds : ∀ m r, State.Holds (State.goto { s.setArena .stack a with vmas := v } n (.failed eagain)) k m r →
      s.Holds k m r ∧ m ≠ n := fun m r h => holds_of_failed hi hsmall hent h rfl rfl (by cases k <;> rfl)
  cases k with
  | stack =>
    show (update s.arena .stack a .stack).Inv _ _
    rw [update_self]
    rcases ha with rfl | rfl
    · exact (hi.arena .stack).mono fun m r h => (hholds m r h).1
    · exact hi.push ⟨hsmall, .inl (by rw [hp]; rfl)⟩ hholds
  | tls => exact (hi.arena .tls).mono fun m r h => (hholds m r h).1

/-- A creation fails for want of a TLS block; its TLS region, if it had one, is dropped or given back. -/
lemma RegInv.failTls {a : Arena} (hattr : (s.phase n).attr? = some attr)
    (hent : ¬ (s.phase n).Entered) (hstack : (s.phase n).region .stack = regionOf .stack stackTop)
    (ha : a = s.arena .tls ∨ ∃ region, (s.phase n).region .tls = some region ∧ a = (s.arena .tls).push region) :
    RegInv own (State.failTls { s.setArena .tls a with vmas := v } n attr stackTop) := by
  have hbegun : s.phase n ≠ .idle := fun h => by rw [h] at hattr; cases hattr
  have hsmall := hi.small n hbegun
  have hfailed : ∀ k m r, (State.failTls { s.setArena .tls a with vmas := v } n attr stackTop).Holds k m r →
      s.Holds k m r ∧ m ≠ n := fun k m r h =>
    holds_of_failed hi hsmall hent h (failTls_phase ..) (failTls_threads ..) (by cases k <;> rfl)
  refine hi.goto (failTls_phase ..) (failTls_threads ..) (failTls_nextThreadId ..) hbegun (fun h => absurd h hent) nofun
    nofun fun k => ?_
  cases k with
  | stack =>
    rw [failTls_stack]
    split
    · exact hi.recycle rfl (fun r hr => ⟨hsmall, .inl (hstack.trans hr)⟩) (hfailed .stack)
    · exact (hi.arena .stack).mono fun m r h => (hfailed .stack m r h).1
  | tls =>
    rw [failTls_tls]
    show (update s.arena .tls a .tls).Inv _ _
    rw [update_self]
    rcases ha with rfl | ⟨region, hregion, rfl⟩
    · exact (hi.arena .tls).mono fun m r h => (hfailed .tls m r h).1
    · exact hi.push ⟨hsmall, .inl hregion⟩ (hfailed .tls)

lemma RegInv.tookTls (hp : s.phase n = .stacked attr stackTop) {a : Arena}
    (ht : (s.arena .tls).take .tls = some ((r, recycled), a)) :
    RegInv own ((s.setArena .tls a).goto n (.tookTls attr stackTop r recycled)) := by
  have hbegun : s.phase n ≠ .idle := by rw [hp]; simp
  refine hi.goto (p := .tookTls attr stackTop r recycled) rfl rfl rfl hbegun (by rw [hp]; exact id)
    (fun ho => by have hon := hi.attr ho n; rwa [hp] at hon) nofun fun k => ?_
  cases k with
  | stack => exact hi.arena_of_goto rfl rfl (hi.small n hbegun) rfl fun r h => by rw [hp]; exact h
  | tls =>
    refine ((hi.arena .tls).take (n := n) (by exact ht) fun m r h => ?_).1
    rcases holds_of_goto (s := s) (n := n) h rfl rfl with h | ⟨hm, hr⟩
    · exact .inl h
    · exact .inr ⟨hm, (some.inj hr).symm⟩

lemma RegInv.ready (hp : s.phase n = .tookTls attr stackTop r recycled) :
    RegInv own ({ s with vmas := v }.goto n (.ready attr stackTop (r + tls.offset))) := by
  refine hi.move (by rw [hp]; simp) (by rw [hp]; exact id) (fun ho => ?_) nofun ?_
  · have hon := hi.attr ho n
    rwa [hp] at hon
  rw [hp]
  rintro (_ | _) r' hr
  · exact hr
  · have hsub : r + tls.offset - tls.offset = r := by bv_omega
    rw [Arena.eq_of_regionOf hr, hsub]
    rfl

lemma RegInv.registered {tlsBase : Word} (hp : s.phase n = .ready attr stackTop tlsBase)
    (hs : s' = { s with threads := s.threads.insert (tid n) (entry attr stackTop tlsBase) }.goto n
      (.registered stackTop (entry attr stackTop tlsBase).stackSize)) : RegInv own s' := by
  have hbegun : s.phase n ≠ .idle := by rw [hp]; simp
  have hsmall := hi.small n hbegun
  have hself : s'.phase n = .registered stackTop (entry attr stackTop tlsBase).stackSize := by
    rw [hs]
    exact update_self ..
  have hthreads : s'.threads = s.threads.insert (tid n) (entry attr stackTop tlsBase) := by rw [hs]; rfl
  have hnext : s'.nextThreadId = s.nextThreadId := by rw [hs]; rfl
  have hsame : s.SameBut s' n := by
    refine ⟨hsmall, fun m hm => ?_, fun id hid => by rw [hthreads, find?_insert_of_ne hid]⟩
    rw [hs]
    exact update_of_ne hm ..
  refine hi.change hsame hnext.ge (hnext ▸ hi.lt_next hbegun) ?_ ?_ ?_ fun k => ?_
  · rw [hself, hthreads, find?_insert_self]
    intro u hu
    cases hu
    refine ⟨trivial, fun ho => ?_⟩
    have hon := hi.attr ho n
    rw [hp] at hon
    exact .inr ⟨(hon attr rfl).2, if_neg (not_not.2 (hon attr rfl).1)⟩
  · rw [hself]
    nofun
  · rw [hself, hthreads, find?_insert_self]
    rintro - top size (hl | hl)
    · cases hl
      exact ⟨_, rfl, rfl, rfl, rfl⟩
    · cases hl
  · have harena : s'.arena = s.arena := by rw [hs]; rfl
    rw [harena]
    refine (hi.arena k).mono fun m r h => ?_
    rcases holds_cases hsame h with ⟨h, -⟩ | ⟨rfl, -, hreg | ⟨u, hu, hr⟩⟩
    · exact h
    · rw [hself] at hreg
      cases k <;> cases hreg
    · rw [hthreads, find?_insert_self] at hu
      cases hu
      refine ⟨hsmall, .inl ?_⟩
      rw [hp]
      cases k <;> exact hr

lemma RegInv.cloned {stackSize : Word} (hp : s.phase n = .registered stackTop stackSize) (ok : Bool) :
    RegInv own (s.goto n (if ok then .running stackTop stackSize else .ended)) := by
  have hbegun : s.phase n ≠ .idle := by rw [hp]; simp
  cases ok with
  | false => exact hi.move (v := s.vmas) hbegun (fun _ => trivial) nofun nofun (by rintro (_ | _) <;> exact nofun)
  | true =>
    refine hi.move (v := s.vmas) hbegun (fun _ => trivial) nofun ?_ (by rintro (_ | _) <;> exact nofun)
    rintro top size (h | h)
    · cases h
    · cases h
      exact .inl hp

/-! ### The end of a thread -/

/-- **An exit is credited to the thread that exits**, unless its stack pointer is at the lowest address of its
stack. -/
theorem RegInv.own_entry (ho : own) {stackSize : Word} (hp : (s.phase n).Live stackTop stackSize)
    (hsp : InStack stackTop stackSize sp) (hbottom : sp ≠ stackTop - stackSize + 0x100)
    (ht : s.threads.find? id = some t) (hrange : t.exitRange sp = true) : id = tid n := by
  obtain ⟨u, hu, rfl, rfl, hlive⟩ := hi.live ho n stackTop stackSize hp
  obtain ⟨m, rfl, hm, -⟩ := hi.ids id t ht
  obtain ⟨h1, h2⟩ := (t.exitRange_iff sp).1 hrange
  have hn := hi.small n hp.ne_idle
  rcases hi.shaped ho _ _ hu with ⟨-, -, hc⟩ | ⟨hu0, husize⟩
  · rw [hc] at hlive
    cases hlive
  obtain ⟨ru, hru⟩ := ne_none_iff_exists'.1 hu0
  have hnh : s.Holds .stack n ru := ⟨hn, .inr ⟨u, hu, hru⟩⟩
  obtain rfl := Arena.eq_of_regionOf hru
  obtain ⟨⟨i, hi1, hi2⟩, -⟩ := (hi.arena .stack).held n _ hnh
  unfold InStack at hsp
  rw [husize] at hsp hbottom
  rcases hi.shaped ho _ _ ht with ⟨ht0, htsize, -⟩ | ⟨ht0, htsize⟩
  · rw [ht0, htsize] at h1
    rw [ht0] at h2
    simp only [base, size, ceiling, offset] at *
    bv_omega
  · obtain ⟨rt, hrt⟩ := ne_none_iff_exists'.1 ht0
    have hmh : s.Holds .stack m rt := ⟨hm, .inr ⟨t, ht, hrt⟩⟩
    obtain rfl := Arena.eq_of_regionOf hrt
    obtain ⟨⟨j, hj1, hj2⟩, -⟩ := (hi.arena .stack).held m _ hmh
    rw [htsize] at h1
    have hbase : t.stackBase - stack.offset = u.stackBase - stack.offset := by
      simp only [base, size, ceiling, offset] at *
      have hij : i = j := by bv_omega
      subst hij
      bv_omega
    rw [hbase] at hmh
    rw [(hi.arena .stack).unique m n _ hmh hnh]

/-- A notice of a thread whose exit is credited to entries of threads that do not run. -/
lemma RegInv.notify {order : List Word} {retval : Word} {finalize : Bool}
    (hdead : own → finalize = true → ∀ id t, s.threads.find? id = some t → t.exitRange sp = true →
      ∀ n stackTop stackSize, id = tid n → ¬ (s.phase n).Live stackTop stackSize) :
    RegInv own (s.notifyThreadExit order sp retval finalize) := by
  rcases s.notifyThreadExit_cases order sp retval finalize with
    h | ⟨id, t, ht, hrange, ⟨-, h⟩ | ⟨hf, -, v, h⟩ | ⟨hf, -, v, h⟩⟩
  · rwa [h]
  · rw [h]
    exact hi.insert ht rfl rfl rfl rfl (reported_base t retval) (reported_stackSize t retval)
      fun _ => .inl (reported_completed t retval)
  · rw [h]
    exact hi.reclaim ht fun ho => hdead ho hf id t ht hrange
  · rw [h]
    refine hi.insert ht rfl rfl rfl rfl (fun k => ?_) (reported_stackSize t retval)
      fun ho => .inr ⟨rfl, hdead ho hf id t ht hrange⟩
    rw [← reported_base t retval k]
    cases k <;> rfl

lemma RegInv.exit {order : List Word} {sp retval stackTop stackSize : Word}
    (hp : s.phase n = .running stackTop stackSize) (hsp : InStack stackTop stackSize sp)
    (hbottom : own → sp ≠ stackTop - stackSize + 0x100) :
    RegInv own ((s.notifyThreadExit order sp retval true).goto n .ended) := by
  have hbegun : s.phase n ≠ .idle := by rw [hp]; simp
  have hi' : RegInv own (s.goto n .ended) :=
    hi.move (v := s.vmas) hbegun (fun _ => trivial) nofun nofun (by rintro (_ | _) <;> exact nofun)
  rw [notifyThreadExit_goto]
  refine hi'.notify fun ho _ id t ht hrange m top size hid hl => ?_
  -- the entry is that of the thread that exits, and that thread has just ended
  have hown := hi.own_entry ho (.inr hp) hsp (hbottom ho) ht hrange
  obtain rfl : m = n := tid_injective (hi'.small m hl.ne_idle) (hi.small n hbegun) (hid.symm.trans hown)
  have hself : (s.goto m .ended).phase m = .ended := update_self ..
  rw [hself] at hl
  rcases hl with hl | hl <;> cases hl

lemma RegInv.dead_of_completed (ho : own) (ht : s.threads.find? id = some t) (hc : t.completed = true) (m : ℕ)
    (stackTop stackSize : Word) (hid : id = tid m) : ¬ (s.phase m).Live stackTop stackSize := by
  intro hl
  obtain ⟨u, hu, -, -, hu'⟩ := hi.live ho m stackTop stackSize hl
  rw [hid, hu] at ht
  cases ht
  rw [hc] at hu'
  cases hu'

end

end Lemmas

/-! ### Runs -/

variable {own : Prop} {s s' : State}

lemma regInv_init : RegInv own .init where
  unused _ _ := rfl
  small _ h := absurd rfl h
  ids _ _ h := by cases h
  attr _ _ _ h := by cases h
  live _ _ _ _ h := by rcases h with h | h <;> cases h
  shaped _ _ _ h := by cases h
  arena k := Arena.inv_init k fun n r h => by
    rcases h with ⟨-, h | ⟨t, h, -⟩⟩
    · cases k <;> cases h
    · cases h

theorem regInv_step {e : Event} (hi : RegInv own s) (hc : Separate s e) (ho : own → Orderly s e)
    (h : step s e = some s') : RegInv own s' := by
  cases steps_of_step h with
  | unstarted detached => exact hi.unstarted hc detached
  | begun => exact hi.begun hc
  | callerStack hp h0 => exact hi.callerStack hp (fun hown => ho hown _ hp) h0 (hc _ hp h0)
  | noStack hp =>
    exact hi.move (v := s.vmas) (by rw [hp]; simp) (by rw [hp]; exact id) nofun nofun
      (by rintro (_ | _) <;> exact nofun)
  | tookStack hp h0 ht => exact hi.tookStack hp h0 ht
  | stacked hp => exact hi.stacked hp
  | unstacked hp _ ha => exact hi.unstacked hp ha
  | noTls hp =>
    have hfail := hi.failTls (v := s.vmas) (by rw [hp]; rfl) (by rw [hp]; exact id) (by rw [hp]; rfl) (.inl rfl)
    rwa [setArena_self] at hfail
  | tookTls hp ht => exact hi.tookTls hp ht
  | ready hp => exact hi.ready hp
  | unready hp _ ha =>
    refine hi.failTls (by rw [hp]; rfl) (by rw [hp]; exact id) (by rw [hp]; rfl)
      (ha.imp_right fun ha => ⟨_, ?_, ha⟩)
    rw [hp]
    rfl
  | registered hp => exact hi.registered hp rfl
  | cloned ok hp => exact hi.cloned hp ok
  | reported => exact hi.notify nofun
  | exited retval hp hsp => exact hi.exit hp hsp fun hown => ho hown _ _ hp
  | joining _ ht | detached ht =>
    exact hi.insert ht rfl rfl rfl rfl (fun k => by cases k <;> rfl) rfl fun _ => .inl rfl
  | joined ht hcomp | reclaimed ht hcomp =>
    exact hi.reclaim (v := s.vmas) ht fun hown => hi.dead_of_completed hown ht hcomp
  | reserved | released => exact { hi with }
  | _ => exact hi

/-- The `n`-th thread is registered with this region. A stack of another size is a caller's. -/
def State.Region (s : State) (k : Kind) (n : ℕ) (r : Word) : Prop :=
  n < 2 ^ 64 ∧ ∃ t, s.threads.find? (tid n) = some t ∧ t.base k ≠ 0 ∧ r = t.base k - k.offset ∧ k.base ≤ r ∧
    r < k.ceiling ∧ (k = .stack → t.stackSize = k.size)

/-- **The regions of registered threads** are slots of the arenas, one each, and not free, in every run in which no
caller's stack is taken for one of the arena. -/
theorem regions_apart {s : State} (hr : system.Reach Separate s) (k : Kind) : (s.arena k).Inv k (s.Region k) := by
  have hi : RegInv False s := by
    refine hr.invariant ?_ fun _ _ _ hi hc h => regInv_step hi hc False.elim h
    rintro s rfl
    exact regInv_init
  apply (hi.arena k).mono
  rintro n r ⟨hn, t, ht, h0, rfl, hlo, hhi, -⟩
  exact ⟨hn, .inr ⟨t, ht, if_pos ⟨h0, hlo, hhi⟩⟩⟩

/-- A thread is created on a stack of 64 KB of its creator. -/
def createdOn (n : ℕ) (stackAddr : Word) (detachstate : BitVec 32) : List Event :=
  .create { startRoutine := 0x1000, detachstate, stackAddr, stackSize := 0x10000 } ::
    (created n).filter fun e => !(e matches .create _ | .commitStack _ _)

/-- The third thread gets the regions of the first one, which has ended; the fourth is on a stack of its creator; and the
second one has ended too. -/
theorem regions_apart_recycled : ∃ s, system.Reach Separate s ∧ s.Region .stack 0x1002 0x90000000 ∧
    (s.arena .stack).free = [0x90100000] ∧ (s.threads.find? 0x1003).map (·.stackBase) = some 0x5000FF00 ∧
    (s.arena .stack).Inv .stack (s.Region .stack) := by
  have hrun : ((created 0x1000 ++ created 0x1001 ++ endedAndJoined 0x1000 [0x1000, 0x1001] 0x900FFF00 ++
      created 0x1002 ++ createdOn 0x1003 0x50000000 0 ++
      endedAndJoined 0x1001 [0x1001, 0x1002, 0x1003] 0x901FFF00).foldlM (System.checked Separate step) .init).map
      (fun s => (s.threads.find? 0x1002, (s.arena .stack).free, (s.threads.find? 0x1003).map (·.stackBase))) =
      some (some (State.entry ⟨false, 0, 0x800000⟩ 0x900FFF00 0xD0000008), [0x90100000], some 0x5000FF00) := by
    decide +kernel
  obtain ⟨s, hs, heq⟩ := map_eq_some_iff.1 hrun
  simp only [Prod.mk.injEq] at heq
  have hreach : system.Reach Separate s := System.Reach.foldlM _ (.init rfl) hs
  exact ⟨s, hreach, ⟨by decide, _, heq.1, by decide⟩, heq.2.1, heq.2.2, regions_apart hreach .stack⟩

/-- A caller's stack is outside the arenas, and nothing is mapped but for threads. -/
def Supplied (_ : State) : Event → Prop
  | .create args => ∀ k ∈ [stack, .tls], k.ceiling ≤ args.stackAddr ∨
      args.stackAddr.toNat + (getEffectiveStackSize args.stackSize).toNat ≤ k.base.toNat
  | .commitStack _ ok | .commitTls _ ok => ok = true
  | .reserveVmas _ _ => False
  | _ => True

instance : DecidableRel Supplied := fun s e => by
  unfold Supplied
  split <;> infer_instance

/-- **A caller's stack above the arena is recycled**: the stack of the next thread crosses the ceiling. -/
theorem region_beyond_ceiling : ¬ ∀ s n r, system.Reach Supplied s → s.nextThreadId ≤ 0x1002 → s.Region .stack n r →
    r.toNat + stack.size.toNat ≤ stack.ceiling.toNat := by
  intro h
  have hrun : ((createdOn 0x1000 0xA0010000 1 ++ .exit 0x1000 [0x1000] 0xA001FF00 0 :: created 0x1001).foldlM
      (System.checked Supplied step) .init).map (fun s => (s.nextThreadId, s.threads.find? 0x1001)) =
      some (0x1002, some (State.entry ⟨false, 0, 0x800000⟩ 0xA001FF00 0xD0000008)) := by
    decide +kernel
  obtain ⟨s, hs, heq⟩ := map_eq_some_iff.1 hrun
  simp only [Prod.mk.injEq] at heq
  have hcrosses := h s 0x1001 0x9FF20000 (System.Reach.foldlM _ (.init rfl) hs) heq.1.le
    ⟨by decide, _, heq.2, by decide⟩
  exact absurd hcrosses (by decide)

end CrossShim.Threads
