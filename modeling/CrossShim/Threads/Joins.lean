import CrossShim.Threads.RegistryInv
import CrossShim.Threads.Self

/-!
# Joining and detaching

Beside the registry, the state records what has happened to each thread: whether it has made its exit, the first value
it has reported, the values that successful joins of it have stored, whether it was detached, and how often an entry of
it was removed.

A thread is joined at most once, after its exit and with its first value, and never if it was detached, in every run in
which each notice of a thread that ends is credited to the entry of that thread (`reach_joinsOk`).  The search for the
entry goes by the stack pointer, and two exit ranges have an address in common, so that an exit may end another thread
(`other_thread_joined`).
-/

namespace CrossShim.Threads

open Lib Function OrdMap State List

/-! ### What has happened -/

structure History where
  reg : State
  /-- The thread that was last entered under an id. -/
  owner : Word → ℕ
  /-- The thread has made its exit. -/
  finalised : ℕ → Bool
  /-- The first value the thread has reported. -/
  first : ℕ → Option Word
  /-- What the successful joins of the thread have stored. -/
  joins : ℕ → List Word
  /-- How often the thread was detached; being created detached counts. -/
  detaches : ℕ → ℕ
  /-- How often an entry of the thread was removed. -/
  removals : ℕ → ℕ

namespace History

variable (h : History)

def init : History := ⟨.init, fun _ => 0, fun _ => false, fun _ => none, fun _ => [], fun _ => 0, fun _ => 0⟩

def entered : Event → Option ℕ
  | .register n => some n
  | .create args => if args.exitInProgress ∧ (checkAttr args).isOk then some h.reg.nextThreadId else none
  | _ => none

def ownerAfter (e : Event) : Word → ℕ :=
  match h.entered e with
  | some n => update h.owner (tid n) n
  | none => h.owner

def finalisedAfter : Event → ℕ → Bool
  | .exit n _ _ _ => update h.finalised n true
  | _ => h.finalised

def firstAfter : Event → ℕ → Option Word
  | .report n _ _ retval => update h.first n (some ((h.first n).getD retval))
  | .exit n _ _ retval => update h.first n (some ((h.first n).getD retval))
  | _ => h.first

def joinsAfter : Event → ℕ → List Word
  | .joinEnd id =>
    match h.reg.joinEnd id with
    | some (_, retval) => update h.joins (h.owner id) (h.joins (h.owner id) ++ [retval])
    | none => h.joins
  | _ => h.joins

def detachesAfter (e : Event) (s : State) : ℕ → ℕ :=
  match h.entered e with
  | some n => update h.detaches n (if (s.threads.find? (tid n)).any (·.detached) then 1 else 0)
  | none =>
    match e with
    | .detach id =>
      match h.reg.detach id with
      | .ok _ => update h.detaches (h.owner id) (h.detaches (h.owner id) + 1)
      | .error _ => h.detaches
    | _ => h.detaches

/-- The entries of a thread that are there and are not there any more in `s`. -/
def gone (s : State) (n : ℕ) : ℕ :=
  (h.reg.threads.entries.map Prod.fst).countP fun id => h.owner id = n ∧ s.threads.find? id = none

def record (e : Event) (s : State) : History where
  reg := s
  owner := h.ownerAfter e
  finalised := h.finalisedAfter e
  first := h.firstAfter e
  joins := h.joinsAfter e
  detaches := h.detachesAfter e s
  removals n := h.removals n + h.gone s n

def step (e : Event) : Option History := (Threads.step h.reg e).map (h.record e)

def system : System History Event := .ofStep (· = init) step

end History

open History

structure JoinsOk (h : History) (n : ℕ) : Prop where
  once : (h.joins n).length ≤ 1
  apart : h.joins n ≠ [] → h.detaches n = 0
  finalised : h.joins n ≠ [] → h.finalised n = true
  value : ∀ retval ∈ h.joins n, h.first n = some retval
  removed : h.removals n ≤ 1

/-- The third thread gets the stack below that of the second one, which ends at the lowest address of its stack; and the
third one, which is newer and visited first, is joined. -/
def otherJoinedRun : List Event :=
  created 0x1000 ++ created 0x1001 ++ endedAndJoined 0x1000 [0x1001, 0x1000] 0x900FFF00 ++ created 0x1002 ++
    [.exit 0x1001 [0x1002, 0x1001] 0x90100000 7, .join ⟨0, 0, 0x7fffff00⟩ 0x1002, .joinEnd 0x1002]

/-- **A thread is joined that has not ended.** -/
theorem other_thread_joined : ¬ ∀ h, History.system.Reachable h → ∀ n, JoinsOk h n := by
  intro hall
  have hrun : otherJoinedRun.foldlM History.step History.init = some _ := rfl
  have hok := hall _ (System.Reachable.foldlM (.init rfl) hrun) 0x1002
  exact absurd (hok.finalised (by decide)) (by decide)

/-- The condition on a step: ids do not wrap around; the process is not exiting when a thread is created; and a thread
that ends does so in the exit range of its own entry only. -/
def Credited (s : State) : Event → Prop
  | .create args => s.nextThreadId < 2 ^ 64 ∧ args.exitInProgress = false
  | .report n _ sp _ => ∀ id t, s.threads.find? id = some t → (t.exitRange sp = true ↔ id = tid n)
  | .exit n _ sp _ => ∀ id t, s.threads.find? id = some t → (t.exitRange sp = true ↔ id = tid n)
  | _ => True

instance : DecidableRel Credited := fun s e => by
  rcases e <;> dsimp only [Credited] <;> infer_instance

/-! ### The records of one thread -/

structure EntryOk (h : History) (n : ℕ) (t : QemuThread) : Prop where
  owner : h.owner (tid n) = n
  joins : h.joins n = []
  removals : h.removals n = 0
  detaches : t.detached = false → h.detaches n = 0
  joining : t.joinInProgress = true → t.detached = false
  first : h.first n = if t.exitReported then some t.returnValue else none
  completed : t.completed = true → h.finalised n = true ∧ t.exitReported = true

structure Fresh (h : History) (n : ℕ) : Prop where
  joins : h.joins n = []
  removals : h.removals n = 0
  first : h.first n = none

structure JoinInv (h : History) : Prop where
  unused : ∀ n, h.reg.nextThreadId ≤ n → h.reg.phase n = .idle
  small : ∀ n, h.reg.phase n ≠ .idle → n < 2 ^ 64
  ids : ∀ id t, h.reg.threads.find? id = some t → ∃ n, id = tid n ∧ n < 2 ^ 64 ∧ (h.reg.phase n).Entered ∧ EntryOk h n t
  fresh : ∀ n, ¬ (h.reg.phase n).Entered → Fresh h n
  ok : ∀ n, JoinsOk h n

structure Agree (h h' : History) (n : ℕ) : Prop where
  finalised : h'.finalised n = h.finalised n
  first : h'.first n = h.first n
  joins : h'.joins n = h.joins n
  detaches : h'.detaches n = h.detaches n
  removals : h'.removals n = h.removals n

section Records

variable {h h' : History} {m n : ℕ} {id sp retval : Word} {t : QemuThread} {s s' : State} {e : Event}

lemma Agree.joinsOk (ha : Agree h h' n) (hok : JoinsOk h n) : JoinsOk h' n := by
  refine ⟨?_, ?_, ?_, ?_, ?_⟩
  · rw [ha.joins]
    exact hok.once
  · rw [ha.joins, ha.detaches]
    exact hok.apart
  · rw [ha.joins, ha.finalised]
    exact hok.finalised
  · rw [ha.joins, ha.first]
    exact hok.value
  · rw [ha.removals]
    exact hok.removed

lemma Agree.entryOk (ha : Agree h h' n) (howner : h'.owner (tid n) = h.owner (tid n)) (hok : EntryOk h n t) :
    EntryOk h' n t := by
  refine ⟨howner.trans hok.owner, ha.joins.trans hok.joins, ha.removals.trans hok.removals, fun hd => ?_, hok.joining,
    ha.first.trans hok.first, fun hc => ?_⟩
  · rw [ha.detaches]
    exact hok.detaches hd
  · rw [ha.finalised]
    exact hok.completed hc

lemma Agree.fresh (ha : Agree h h' n) (hf : Fresh h n) : Fresh h' n :=
  ⟨ha.joins.trans hf.joins, ha.removals.trans hf.removals, ha.first.trans hf.first⟩

lemma joinsOk_of_unjoined (hj : h.joins n = []) (hr : h.removals n ≤ 1) : JoinsOk h n := by
  refine ⟨?_, fun hne => absurd hj hne, fun hne => absurd hj hne, fun retval hmem => ?_, hr⟩
  · rw [hj]
    exact Nat.zero_le _
  · rw [hj] at hmem
    cases hmem

lemma JoinInv.entry (hi : JoinInv h) (hn : n < 2 ^ 64) (ht : h.reg.threads.find? (tid n) = some t) :
    (h.reg.phase n).Entered ∧ EntryOk h n t := by
  obtain ⟨m, hid, hm, hent, hok⟩ := hi.ids _ _ ht
  obtain rfl := tid_injective hn hm hid
  exact ⟨hent, hok⟩

/-! ### Removals -/

lemma History.gone_eq_zero
    (hstay : ∀ id t, h.reg.threads.find? id = some t → h.owner id = n → s.threads.find? id ≠ none) :
    h.gone s n = 0 := by
  refine countP_eq_zero.2 fun id hid => ?_
  obtain ⟨⟨id, t⟩, hmem, rfl⟩ := mem_map.1 hid
  simp only [decide_eq_true_eq, not_and]
  exact hstay id t (find?_eq_some.2 hmem)

lemma keys_nodup (threads : OrdMap Word QemuThread) : (threads.entries.map Prod.fst).Nodup :=
  pairwise_map.2 (threads.sorted.imp fun hlt => ne_of_lt hlt)

lemma History.gone_le_one (hstay : ∀ id' ≠ id, ∀ t, h.reg.threads.find? id' = some t → s.threads.find? id' ≠ none) :
    h.gone s n ≤ 1 := by
  refine le_trans (countP_mono_left (q := (· == id)) fun id' hid' hgone => ?_)
    (nodup_iff_count_le_one.1 (keys_nodup h.reg.threads) id)
  obtain ⟨⟨id', t⟩, hmem, rfl⟩ := mem_map.1 hid'
  simp only [decide_eq_true_eq] at hgone
  by_contra hne
  exact hstay id' (by simpa using hne) t (find?_eq_some.2 hmem) hgone.2

lemma JoinInv.gone_others (hi : JoinInv h) (hn : n < 2 ^ 64)
    (hfind : ∀ id ≠ tid n, s.threads.find? id = h.reg.threads.find? id) (hm : m ≠ n) : h.gone s m = 0 := by
  refine gone_eq_zero fun id t ht howner => ?_
  by_cases hid : id = tid n
  · subst hid
    exact absurd (howner.symm.trans (hi.entry hn ht).2.owner) hm
  · rw [hfind id hid, ht]
    nofun

def PhasesOk (s : State) : Prop :=
  (∀ m, s.nextThreadId ≤ m → s.phase m = .idle) ∧ ∀ m, s.phase m ≠ .idle → m < 2 ^ 64

/-- What an event does not change when it is about the thread `n`, which has an entry after it. -/
structure Touches (h : History) (e : Event) (s : State) (n : ℕ) : Prop where
  small : n < 2 ^ 64
  phases : PhasesOk s
  entered : ∀ m ≠ n, (s.phase m).Entered ↔ (h.reg.phase m).Entered
  owner : ∀ id ≠ tid n, h.ownerAfter e id = h.owner id
  records : ∀ m ≠ n, h.finalisedAfter e m = h.finalised m ∧ h.firstAfter e m = h.first m ∧
    h.joinsAfter e m = h.joins m ∧ h.detachesAfter e s m = h.detaches m
  self : (s.phase n).Entered

lemma JoinInv.change (hi : JoinInv h) (hc : Touches h e s n)
    (hfind : ∀ id ≠ tid n, s.threads.find? id = h.reg.threads.find? id)
    (hentry : ∀ t, s.threads.find? (tid n) = some t → EntryOk (h.record e s) n t)
    (hok : JoinsOk (h.record e s) n) : JoinInv (h.record e s) := by
  have hothers (m : ℕ) (hmn : m ≠ n) : Agree h (h.record e s) m := by
    obtain ⟨hfin, hfirst, hjoins, hdet⟩ := hc.records m hmn
    refine ⟨hfin, hfirst, hjoins, hdet, ?_⟩
    show h.removals m + h.gone s m = h.removals m
    rw [hi.gone_others hc.small hfind hmn, Nat.add_zero]
  refine ⟨hc.phases.1, hc.phases.2, fun id t ht => ?_, fun m hm => ?_, fun m => ?_⟩
  · by_cases hid : id = tid n
    · subst hid
      exact ⟨n, rfl, hc.small, hc.self, hentry t ht⟩
    · obtain ⟨m, rfl, hm, hent, hentryOk⟩ := hi.ids id t ((hfind id hid).symm.trans ht)
      have hmn : m ≠ n := fun heq => hid (by rw [heq])
      exact ⟨m, rfl, hm, (hc.entered m hmn).2 hent, (hothers m hmn).entryOk (hc.owner _ hid) hentryOk⟩
  · have hmn : m ≠ n := by
      rintro rfl
      exact hm hc.self
    exact (hothers m hmn).fresh (hi.fresh m fun hent => hm ((hc.entered m hmn).2 hent))
  · by_cases hmn : m = n
    · subst hmn
      exact hok
    · exact (hothers m hmn).joinsOk (hi.ok m)

lemma JoinInv.quiet (hi : JoinInv h) (hphases : PhasesOk s)
    (hentered : ∀ m, (s.phase m).Entered ↔ (h.reg.phase m).Entered)
    (hthreads : s.threads = h.reg.threads) (howner : h.ownerAfter e = h.owner) (hfin : h.finalisedAfter e = h.finalised)
    (hfirst : h.firstAfter e = h.first) (hjoins : h.joinsAfter e = h.joins) (hdet : h.detachesAfter e s = h.detaches) :
    JoinInv (h.record e s) := by
  have hagree (m : ℕ) : Agree h (h.record e s) m := by
    refine ⟨congrFun hfin m, congrFun hfirst m, congrFun hjoins m, congrFun hdet m, ?_⟩
    have hgone : h.gone s m = 0 := gone_eq_zero fun id t ht _ => by
      rw [hthreads, ht]
      nofun
    show h.removals m + h.gone s m = h.removals m
    rw [hgone, Nat.add_zero]
  refine ⟨hphases.1, hphases.2, fun id t ht => ?_, fun m hm => ?_, fun m => (hagree m).joinsOk (hi.ok m)⟩
  · obtain ⟨n, rfl, hn, hent, hok⟩ := hi.ids id t (hthreads ▸ ht)
    exact ⟨n, rfl, hn, (hentered n).2 hent, (hagree n).entryOk (congrFun howner _) hok⟩
  · exact (hagree m).fresh (hi.fresh m fun hent => hm ((hentered m).2 hent))

end Records

/-! ### Phases -/

section Phases

variable {h : History} {n : ℕ} {s : State} {e : Event}

lemma Moves.begun_or {p : Phase} (hm : Moves h.reg e n p) (he : ∀ args, e ≠ .create args) : h.reg.phase n ≠ .idle := by
  cases hm with
  | begun args | unstarted args => exact absurd rfl (he args)
  | _ =>
    rw [‹h.reg.phase n = _›]
    nofun

lemma JoinInv.phases (hi : JoinInv h) (hs : step h.reg e = some s) (he : ∀ args, e ≠ .create args) : PhasesOk s := by
  refine ⟨fun m hle => ?_, fun m hne => ?_⟩
  · have hidle := hi.unused m ((step_moves hs).1.trans hle)
    obtain hsame | ⟨p, -, hm⟩ := step_phase hs m
    · rw [hsame, hidle]
    · exact absurd hidle (hm.begun_or he)
  · obtain hsame | ⟨p, -, hm⟩ := step_phase hs m
    · rw [hsame] at hne
      exact hi.small m hne
    · exact hi.small m (hm.begun_or he)

lemma entered_iff (hs : step h.reg e = some s) (he : ∀ args, e ≠ .create args) (hr : ∀ n, e ≠ .register n) (m : ℕ) :
    (s.phase m).Entered ↔ (h.reg.phase m).Entered := by
  obtain hsame | ⟨p, hself, hm⟩ := step_phase hs m
  · rw [hsame]
  · rw [hself]
    cases hm with
    | begun args | unstarted args => exact absurd rfl (he args)
    | registered => exact absurd rfl (hr m)
    | _ =>
      rw [‹h.reg.phase m = _›]
      exact Iff.rfl

end Phases

/-! ### The events -/

section Events

variable {h h' : History} {n : ℕ} {id sp retval : Word} {t : QemuThread} {s : State} {e : Event}

lemma JoinInv.create (hi : JoinInv h) {args : CreateArgs} (hc : Credited h.reg (.create args))
    (hs : step h.reg (.create args) = some s) : JoinInv (h.record (.create args) s) := by
  obtain ⟨hwrap, hexit⟩ := hc
  have hent : h.entered (.create args) = none := if_neg fun hx => by
    rw [hexit] at hx
    exact absurd hx.1 nofun
  have howner : h.ownerAfter (.create args) = h.owner := by simp only [ownerAfter, hent]
  have hdet : h.detachesAfter (.create args) s = h.detaches := by simp only [detachesAfter, hent]
  cases steps_of_step hs with
  | uncreated => exact hi.quiet ⟨hi.unused, hi.small⟩ (fun _ => Iff.rfl) rfl howner rfl rfl rfl hdet
  | unstarted _ hx =>
    rw [hexit] at hx
    cases hx
  | begun =>
    have hidle := hi.unused _ le_rfl
    refine hi.quiet ⟨fun m hle => ?_, fun m hne => ?_⟩ (fun m => ?_) rfl howner rfl rfl rfl hdet
    · have hle : h.reg.nextThreadId + 1 ≤ m := hle
      have hmn : m ≠ h.reg.nextThreadId := by omega
      exact (update_of_ne hmn ..).trans (hi.unused m (by omega))
    · by_cases hmn : m = h.reg.nextThreadId
      · rw [hmn]
        exact hwrap
      · exact hi.small m fun h0 => hne ((update_of_ne hmn ..).trans h0)
    · by_cases hmn : m = h.reg.nextThreadId
      · subst hmn
        rw [hidle]
        simp only [State.goto, update_self]
        exact Iff.rfl
      · simp only [State.goto, update_of_ne hmn]

/-- The steps of a creation before the entry is made, the system call after it, and the budget. -/
def Event.isQuiet : Event → Bool
  | .takeStack _ | .commitStack _ _ | .takeTls _ | .commitTls _ _ | .clone _ _ => true
  | .reserveVmas _ _ | .releaseVmas _ => true
  | _ => false

lemma threads_of_quiet {s' : State} (hq : e.isQuiet = true) (hs : step s e = some s') : s'.threads = s.threads := by
  cases steps_of_step hs with
  | noTls | unready => exact failTls_threads ..
  | unstarted | registered | reported | exited | joining | joined | reclaimed | detached => cases hq
  | _ => rfl

lemma JoinInv.of_quiet (hi : JoinInv h) (hq : e.isQuiet = true) (hs : step h.reg e = some s) :
    JoinInv (h.record e s) := by
  have hcreate : ∀ args, e ≠ .create args := by
    rintro args rfl
    cases hq
  have hregister : ∀ n, e ≠ .register n := by
    rintro n rfl
    cases hq
  have hphases := hi.phases hs hcreate
  have hthreads := threads_of_quiet hq hs
  have hentered := entered_iff hs hcreate hregister
  cases e with
  | takeStack | commitStack | takeTls | commitTls | clone | reserveVmas | releaseVmas =>
    exact hi.quiet hphases hentered hthreads rfl rfl rfl rfl rfl
  | _ => cases hq

lemma History.gone_insert (hthreads : s.threads = h.reg.threads.insert id t) : h.gone s n = 0 := by
  refine gone_eq_zero fun id' t' ht' _ => ?_
  rw [hthreads]
  by_cases hid : id' = id
  · rw [hid, find?_insert_self]
    nofun
  · rw [find?_insert_of_ne hid, ht']
    nofun

lemma History.gone_erase (hthreads : s.threads = h.reg.threads.erase id) : h.gone s n ≤ 1 := by
  refine gone_le_one fun (id' : Word) (hid : id' ≠ id) t ht => ?_
  rw [hthreads, find?_erase_of_ne hid, ht]
  nofun

/-- The entry of the thread is written, and the thread has not been joined. -/
lemma JoinInv.inserted (hi : JoinInv h) (hc : Touches h e s n) (hthreads : s.threads = h.reg.threads.insert (tid n) t)
    (hzero : h.removals n = 0) (hjoins : (h.record e s).joins n = [])
    (hentry : (h.record e s).removals n = 0 → EntryOk (h.record e s) n t) : JoinInv (h.record e s) := by
  have hremovals : (h.record e s).removals n = 0 := by
    show h.removals n + h.gone s n = 0
    rw [hzero, gone_insert hthreads]
  refine hi.change hc (fun id hid => ?_) (fun t' ht' => ?_) (joinsOk_of_unjoined hjoins (by omega))
  · rw [hthreads, find?_insert_of_ne hid]
  · rw [hthreads, find?_insert_self] at ht'
    cases ht'
    exact hentry hremovals

/-- The entry of the thread is removed, for the first time. -/
lemma JoinInv.erased (hi : JoinInv h) (hc : Touches h e s n) (hthreads : s.threads = h.reg.threads.erase (tid n))
    (hzero : h.removals n = 0) (hok : (h.record e s).removals n ≤ 1 → JoinsOk (h.record e s) n) :
    JoinInv (h.record e s) := by
  refine hi.change hc (fun id hid => ?_) (fun t' ht' => ?_) (hok ?_)
  · rw [hthreads, find?_erase_of_ne hid]
  · rw [hthreads, find?_erase_self] at ht'
    cases ht'
  · show h.removals n + h.gone s n ≤ 1
    rw [hzero, Nat.zero_add]
    exact gone_erase hthreads

lemma JoinInv.register (hi : JoinInv h) (hs : step h.reg (.register n) = some s) :
    JoinInv (h.record (.register n) s) := by
  have hphases := hi.phases hs nofun
  cases steps_of_step hs with
  | @registered _ attr stackTop tlsBase hp =>
    have hn : n < 2 ^ 64 := hi.small n (by rw [hp]; nofun)
    have hfresh : Fresh h n := hi.fresh n (by rw [hp]; exact id)
    refine hi.inserted (t := State.entry attr stackTop tlsBase) ⟨hn, hphases, fun m hmn => ?_,
      fun id hid => update_of_ne hid .., fun m hmn => ⟨rfl, rfl, rfl, update_of_ne hmn ..⟩, ?_⟩ rfl hfresh.removals
      hfresh.joins fun hremovals => ?_
    · simp only [State.goto, update_of_ne hmn]
    · simp only [State.goto, update_self]
      trivial
    · refine ⟨update_self .., hfresh.joins, hremovals, fun hd => ?_, nofun, hfresh.first, nofun⟩
      show update h.detaches n (if ((h.reg.threads.insert (tid n) _).find? (tid n)).any (·.detached) then 1 else 0) n = 0
      rw [update_self, find?_insert_self, Option.any_some, hd]
      rfl

/-! ### Notices -/

lemma reported_first {first : Option Word} (hfirst : first = if t.exitReported then some t.returnValue else none)
    (retval : Word) : (t.reported retval).exitReported = true ∧
      some (first.getD retval) = some (t.reported retval).returnValue := by
  unfold QemuThread.reported
  cases hr : t.exitReported with
  | true =>
    rw [hfirst, hr]
    exact ⟨hr, rfl⟩
  | false =>
    rw [hfirst, hr]
    exact ⟨rfl, rfl⟩

lemma notify_own {order : List Word} (hv : s.Visits order)
    (hc : ∀ id t, s.threads.find? id = some t → (t.exitRange sp = true ↔ id = tid n)) (retval : Word)
    (finalize : Bool) :
    (s.threads.find? (tid n) = none ∧ s.notifyThreadExit order sp retval finalize = s) ∨
      ∃ t, s.threads.find? (tid n) = some t ∧
        ((∃ completed, (completed = true → t.completed = true ∨ finalize = true) ∧
            (s.notifyThreadExit order sp retval finalize).threads =
              s.threads.insert (tid n) { t.reported retval with completed := completed }) ∨
          (t.detached = true ∧ (s.notifyThreadExit order sp retval finalize).threads = s.threads.erase (tid n))) := by
  cases ht : s.threads.find? (tid n) with
  | none =>
    refine .inl ⟨rfl, ?_⟩
    unfold State.notifyThreadExit
    cases hfind : order.find? fun id => (s.threads.find? id).any (·.exitRange sp) with
    | none => rfl
    | some id =>
      have hany := find?_some hfind
      obtain ⟨t, ht', hr⟩ := (Option.any_eq_true _ _).1 hany
      obtain rfl := (hc id t ht').1 hr
      simp only [ht]
  | some t =>
    refine .inr ⟨t, rfl, ?_⟩
    have hfind := hv.credited ht ((hc _ t ht).2 rfl) fun id t ht => (hc id t ht).1
    unfold State.notifyThreadExit
    simp only [hfind, ht]
    split
    case isTrue =>
      refine .inl ⟨(t.reported retval).completed, fun hcomp => .inl ?_, rfl⟩
      rwa [reported_completed] at hcomp
    case isFalse hfin =>
      obtain ⟨hfin, -⟩ : finalize = true ∧ t.completed = false := by simpa using hfin
      split
      case isTrue hdet => exact .inr ⟨hdet, rfl⟩
      case isFalse => exact .inl ⟨true, fun _ => .inr hfin, rfl⟩

lemma reported_flags (t : QemuThread) (retval : Word) :
    (t.reported retval).detached = t.detached ∧ (t.reported retval).joinInProgress = t.joinInProgress := by
  unfold QemuThread.reported
  split <;> exact ⟨rfl, rfl⟩

/-- What a notice of the thread `n` does besides its walk over the entries: with `finalize` it is the exit. -/
structure Noticed (h : History) (e : Event) (s : State) (n : ℕ) (retval : Word) (finalize : Bool) : Prop where
  phases : PhasesOk s
  entered : ∀ m, (s.phase m).Entered ↔ (h.reg.phase m).Entered
  running : (h.reg.phase n).Entered
  owner : h.ownerAfter e = h.owner
  joins : h.joinsAfter e = h.joins
  detaches : h.detachesAfter e s = h.detaches
  first : h.firstAfter e = update h.first n (some ((h.first n).getD retval))
  finalised : h.finalisedAfter e = if finalize then update h.finalised n true else h.finalised

namespace Noticed

variable {finalize : Bool}

section

variable (ho : Noticed h e s n retval finalize)
include ho

lemma touches (hi : JoinInv h) : Touches h e s n := by
  refine ⟨hi.small n fun hidle => ?_, ho.phases, fun m _ => ho.entered m, fun id _ => congrFun ho.owner id,
    fun m hmn => ⟨?_, ?_, congrFun ho.joins m, congrFun ho.detaches m⟩, (ho.entered n).2 ho.running⟩
  · have hself := ho.running
    rw [hidle] at hself
    exact hself
  · rw [ho.finalised]
    split
    · exact update_of_ne hmn ..
    · rfl
  · rw [ho.first, update_of_ne hmn]

lemma finalised_mono (hf : h.finalised n = true) : h.finalisedAfter e n = true := by
  rw [ho.finalised]
  split
  · exact update_self ..
  · exact hf

lemma first_self : h.firstAfter e n = some ((h.first n).getD retval) := by
  rw [ho.first, update_self]

end

lemma removed (ho : Noticed h e s n retval finalize) (hi : JoinInv h) (hnone : h.reg.threads.find? (tid n) = none)
    (hthreads : s.threads = h.reg.threads) : JoinInv (h.record e s) := by
  have hgone : h.gone s n = 0 := gone_eq_zero fun id t ht _ => by
    rw [hthreads, ht]
    nofun
  have hremovals : (h.record e s).removals n = h.removals n + h.gone s n := rfl
  have hok := hi.ok n
  refine hi.change (ho.touches hi) (fun id _ => by rw [hthreads]) (fun t ht => ?_) ⟨?_, ?_, ?_, ?_, ?_⟩
  · rw [hthreads, hnone] at ht
    cases ht
  · show (h.joinsAfter e n).length ≤ 1
    rw [ho.joins]
    exact hok.once
  · show h.joinsAfter e n ≠ [] → h.detachesAfter e s n = 0
    rw [ho.joins, ho.detaches]
    exact hok.apart
  · show h.joinsAfter e n ≠ [] → h.finalisedAfter e n = true
    rw [ho.joins]
    exact fun hne => ho.finalised_mono (hok.finalised hne)
  · show ∀ retval ∈ h.joinsAfter e n, h.firstAfter e n = some retval
    intro v hv
    rw [ho.joins] at hv
    rw [ho.first_self, hok.value v hv]
    rfl
  · have hremoved := hok.removed
    omega

lemma kept (ho : Noticed h e s n retval finalize) (hi : JoinInv h) (ht : h.reg.threads.find? (tid n) = some t)
    {completed : Bool} (hcompleted : completed = true → t.completed = true ∨ finalize = true)
    (hthreads : s.threads = h.reg.threads.insert (tid n) { t.reported retval with completed := completed }) :
    JoinInv (h.record e s) := by
  have hc := ho.touches hi
  have hok := (hi.entry hc.small ht).2
  have hjoins : (h.record e s).joins n = [] := (congrFun ho.joins n).trans hok.joins
  obtain ⟨hreported, hvalue⟩ := reported_first hok.first retval
  obtain ⟨hdetached, hjoining⟩ := reported_flags t retval
  refine hi.inserted hc hthreads hok.removals hjoins fun hremovals =>
    ⟨(congrFun ho.owner _).trans hok.owner, hjoins, hremovals, fun hd => ?_, fun hj => ?_, ?_,
      fun hcomp => ⟨?_, hreported⟩⟩
  · exact (congrFun ho.detaches n).trans (hok.detaches (hdetached.symm.trans hd))
  · exact hdetached.trans (hok.joining (hjoining.symm.trans hj))
  · show h.firstAfter e n = if (t.reported retval).exitReported then some (t.reported retval).returnValue else none
    rw [ho.first_self, hreported, hvalue, if_pos rfl]
  · rcases hcompleted hcomp with hcomp | rfl
    · exact ho.finalised_mono (hok.completed hcomp).1
    · show h.finalisedAfter e n = true
      rw [ho.finalised, if_pos rfl, update_self]

lemma joinInv (ho : Noticed h e s n retval finalize) (hi : JoinInv h) {order : List Word} (hv : h.reg.Visits order)
    (hc : ∀ id t, h.reg.threads.find? id = some t → (t.exitRange sp = true ↔ id = tid n))
    (hthreads : s.threads = (h.reg.notifyThreadExit order sp retval finalize).threads) :
    JoinInv (h.record e s) := by
  rcases notify_own hv hc retval finalize with
    ⟨hnone, heq⟩ | ⟨t, ht, ⟨completed, hcompleted, heq⟩ | ⟨-, heq⟩⟩
  · exact ho.removed hi hnone (hthreads.trans (congrArg State.threads heq))
  · exact ho.kept hi ht hcompleted (hthreads.trans heq)
  · have hc := ho.touches hi
    have hok := (hi.entry hc.small ht).2
    exact hi.erased hc (hthreads.trans heq) hok.removals
      (joinsOk_of_unjoined ((congrFun ho.joins n).trans hok.joins))

end Noticed

/-! ### Joins and detaches -/

lemma JoinInv.join (hi : JoinInv h) {caller : Context} (hs : step h.reg (.join caller id) = some s) :
    JoinInv (h.record (.join caller id) s) := by
  have hphases := hi.phases hs nofun
  have hentered := entered_iff hs nofun nofun
  cases steps_of_step hs with
  | unjoined => exact hi.quiet hphases hentered rfl rfl rfl rfl rfl rfl
  | @joining _ t _ ht hdetached =>
    obtain ⟨n, rfl, hn, hent, hok⟩ := hi.ids id t ht
    refine hi.inserted ⟨hn, hphases, fun m _ => hentered m, fun _ _ => rfl, fun _ _ => ⟨rfl, rfl, rfl, rfl⟩,
      (hentered n).2 hent⟩ rfl hok.removals hok.joins fun hremovals => ?_
    exact ⟨hok.owner, hok.joins, hremovals, hok.detaches, fun _ => hdetached, hok.first, hok.completed⟩

/-- A join ends: the thread has made its exit, and its value is the first it has reported. -/
lemma JoinInv.joinEnd (hi : JoinInv h) (hs : step h.reg (.joinEnd id) = some s) :
    JoinInv (h.record (.joinEnd id) s) := by
  have hphases := hi.phases hs nofun
  have hentered := entered_iff hs nofun nofun
  obtain ⟨⟨s₁, retval⟩, hj, rfl⟩ := Option.map_eq_some_iff.1 hs
  obtain ⟨t, ht, hjoining, hcompleted, rfl, rfl⟩ := joinEnd_cases hj
  obtain ⟨n, rfl, hn, hent, hok⟩ := hi.ids id t ht
  obtain ⟨hfinalised, hreported⟩ := hok.completed hcompleted
  have hjoins : h.joinsAfter (.joinEnd (tid n)) = update h.joins n [t.returnValue] := by
    simp only [joinsAfter, hj, hok.owner, hok.joins, nil_append]
  have hjoins' : (h.record (.joinEnd (tid n)) (h.reg.reclaim (tid n) t)).joins n = [t.returnValue] := by
    show h.joinsAfter (.joinEnd (tid n)) n = _
    rw [hjoins, update_self]
  refine hi.erased ⟨hn, hphases, fun m _ => hentered m, fun _ _ => rfl, fun m hmn => ⟨rfl, rfl, ?_, rfl⟩, hent⟩ rfl
    hok.removals fun hremovals => ⟨?_, fun _ => ?_, fun _ => hfinalised, ?_, hremovals⟩
  · rw [hjoins, update_of_ne hmn]
  · rw [hjoins']
    exact le_rfl
  · exact hok.detaches (hok.joining hjoining)
  · rw [hjoins']
    intro v hv
    obtain rfl := mem_singleton.1 hv
    show h.first n = some t.returnValue
    rw [hok.first, if_pos hreported]

lemma JoinInv.detach (hi : JoinInv h) (hs : step h.reg (.detach id) = some s) : JoinInv (h.record (.detach id) s) := by
  have hphases := hi.phases hs nofun
  have hentered := entered_iff hs nofun nofun
  cases hd : h.reg.detach id with
  | error error =>
    obtain rfl : h.reg = s := by simpa only [Threads.step, hd, State.orSelf, Option.some.injEq] using hs
    refine hi.quiet hphases hentered rfl rfl rfl rfl rfl ?_
    simp only [detachesAfter, entered, hd]
  | ok s₁ =>
    obtain rfl : s₁ = s := by simpa only [Threads.step, hd, State.orSelf, Option.some.injEq] using hs
    obtain ⟨t, ht, -, hjoining, hcases⟩ := detach_cases hd
    obtain ⟨n, rfl, hn, hent, hok⟩ := hi.ids id t ht
    have hdet : h.detachesAfter (.detach (tid n)) s₁ = update h.detaches n (h.detaches n + 1) := by
      simp only [detachesAfter, entered, hd, hok.owner]
    have hc : Touches h (.detach (tid n)) s₁ n := by
      refine ⟨hn, hphases, fun m _ => hentered m, fun _ _ => rfl, fun m hmn => ⟨rfl, rfl, rfl, ?_⟩, (hentered n).2 hent⟩
      rw [hdet, update_of_ne hmn]
    obtain ⟨-, hs₁⟩ | ⟨-, hs₁⟩ := hcases
    · exact hi.erased hc (by rw [hs₁]; rfl) hok.removals (joinsOk_of_unjoined hok.joins)
    · refine hi.inserted (t := { t with detached := true }) hc (by rw [hs₁]) hok.removals hok.joins fun hremovals =>
        ⟨hok.owner, hok.joins, hremovals, nofun, fun hj => ?_, hok.first, hok.completed⟩
      exact absurd (hjoining.symm.trans hj) nofun

end Events

/-! ### Runs -/

theorem joinInv_step {h h' : History} {e : Event} (hi : JoinInv h) (hc : Credited h.reg e) (hs : h.step e = some h') :
    JoinInv h' := by
  obtain ⟨s, hreg, rfl⟩ := Option.map_eq_some_iff.1 hs
  cases e with
  | create args => exact hi.create hc hreg
  | register n => exact hi.register hreg
  | report n order sp retval =>
    have hphases := hi.phases hreg nofun
    have hentered := entered_iff hreg nofun nofun
    cases steps_of_step hreg with
    | reported _ hp hv =>
      have ho : Noticed h (.report n order sp retval) _ n retval false :=
        ⟨hphases, hentered, by rw [hp]; trivial, rfl, rfl, rfl, rfl, rfl⟩
      exact ho.joinInv hi hv hc rfl
  | exit n order sp retval =>
    have hphases := hi.phases hreg nofun
    have hentered := entered_iff hreg nofun nofun
    cases steps_of_step hreg with
    | exited _ hp _ hv =>
      have ho : Noticed h (.exit n order sp retval) _ n retval true :=
        ⟨hphases, hentered, by rw [hp]; trivial, rfl, rfl, rfl, rfl, rfl⟩
      exact ho.joinInv hi hv hc rfl
  | join caller id => exact hi.join hreg
  | joinEnd id => exact hi.joinEnd hreg
  | detach id => exact hi.detach hreg
  | _ => exact hi.of_quiet rfl hreg

lemma joinInv_init : JoinInv .init where
  unused _ _ := rfl
  small n hn := absurd rfl hn
  ids id t ht := by cases ht
  fresh n _ := ⟨rfl, rfl, rfl⟩
  ok n := joinsOk_of_unjoined rfl (Nat.zero_le _)

/-- **Each thread is joined at most once, after its exit and with the first value it has reported, not if it was
detached, and its entry is removed at most once**, in every run in which the notices of a thread are credited to its own
entry. -/
theorem reach_joinsOk {h : History} (hr : History.system.Reach (fun h e => Credited h.reg e) h) (n : ℕ) :
    JoinsOk h n := by
  have hi : JoinInv h := by
    refine hr.invariant (I := JoinInv) ?_ fun _ _ _ hi hc hs => joinInv_step hi hc hs
    rintro _ rfl
    exact joinInv_init
  exact hi.ok n

/-- Beside a second thread, a thread reports 7, makes its exit with 9, and is joined with 7. -/
theorem joinsOk_first_value : ∃ h, History.system.Reach (fun h e => Credited h.reg e) h ∧ h.joins 0x1000 = [7] ∧
    h.removals 0x1000 = 1 ∧ JoinsOk h 0x1000 := by
  have hrun : ((created 0x1000 ++ created 0x1001 ++ .report 0x1000 [0x1001, 0x1000] 0x900FFF00 7 ::
      .exit 0x1000 [0x1001, 0x1000] 0x900FFF00 9 :: (endedAndJoined 0x1000 [] 0).tail).foldlM
      (System.checked (fun h e => Credited h.reg e) History.step) .init).map (fun h => (h.joins 0x1000, h.removals 0x1000)) = some ([7], 1) := by
    decide +kernel
  obtain ⟨h, hs, heq⟩ := Option.map_eq_some_iff.1 hrun
  simp only [Prod.mk.injEq] at heq
  have hreach : History.system.Reach (fun h e => Credited h.reg e) h := System.Reach.foldlM _ (.init rfl) hs
  exact ⟨h, hreach, heq.1, heq.2, reach_joinsOk hreach 0x1000⟩

end CrossShim.Threads
