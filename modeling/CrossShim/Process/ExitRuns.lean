import CrossShim.Process.Exit

/-!
# What holds in every run of `exit`

`ControlOk` is about the threads: only the owner starts handlers, nobody gets past the wait before it has finished, and
only its first call stops a loop.  `HandlersOk` is about the handlers: each is started at most once, and the one
registered last comes first.

That every handler is started is another matter.  A handler is lost if its call is refused, and one that is registered
between the owner's last look at the list and the end of the exit stays there (`exitOk_iff_undisturbed`).
-/

namespace CrossShim.Process

open Lib Function List State

/-! ### The threads -/

/-- The loop in which the owner has called `exit`, as long as it is in the call. -/
def Phase.loop (current : Loop) : Phase → Option Loop
  | running | closing | stopping => some current
  | inHandler _ outer => some outer
  | idle | returned => none

structure ControlOk (s : State) : Prop where
  idle : s.inProgress = false ↔ s.phase = .idle
  complete : s.complete = true ↔ s.phase = .stopping ∨ s.phase = .returned
  waiting : ∀ i, s.waiting i = true → s.inProgress = true ∧ i ≠ s.owner ∧ (s.loops i).Going ∧
    ∃ m ∈ (s.calls i).head?, m.inProgress = true
  returns : ∀ r ∈ s.returns, (∃ m ∈ r.made, ¬ r.loop.Going ↔ m.inProgress = false ∧ m.loop ≠ .native) ∧
    (r.disposition = .nonOwnerWaited → s.complete = true)
  owner : ∀ l ∈ s.phase.loop (s.loops s.owner), (s.calls s.owner).head? = some ⟨false, l⟩
  started : ∀ st ∈ s.started, s.inProgress = true ∧ st.thread = s.owner ∧
    (st.handler ∈ s.finished ∨ ∃ outer, s.phase = .inHandler st.handler outer)

section Control

variable {s s' : State} {e : Event}

lemma controlOk_init (loops : ℕ → Loop) (forkChild : Bool) : ControlOk (.init loops forkChild) where
  idle := iff_of_true rfl rfl
  complete := iff_of_false nofun (by simp [init])
  waiting := nofun
  returns := nofun
  owner := nofun
  started := nofun

lemma return_going {l : Loop} {m : Made} (hgoing : l.Going) (hm : m.inProgress = true) :
    ¬ l.Going ↔ m.inProgress = false ∧ m.loop ≠ .native :=
  iff_of_false (not_not.2 hgoing) (by simp [hm])

lemma head_make {i : ℕ} : ((s.make i).calls i).head? = some ⟨s.inProgress, s.loops i⟩ := by simp [make]

lemma calls_make_of_ne {i j : ℕ} (h : j ≠ i) : (s.make i).calls j = s.calls j := update_of_ne h ..

lemma calls_ret_make {i : ℕ} : update (s.make i).calls i ((s.make i).calls i).tail = s.calls := by simp [make]

lemma ControlOk.inProgress_of_phase (h : ControlOk s) (hp : s.phase ≠ .idle) : s.inProgress = true := by
  rw [← Bool.not_eq_false, h.idle]
  exact hp

lemma ControlOk.not_complete (h : ControlOk s) (hp : ¬ (s.phase = .stopping ∨ s.phase = .returned)) :
    s.complete ≠ true := fun hc => hp (h.complete.1 hc)

lemma ControlOk.not_complete_of_first {i : ℕ} (h : ControlOk s) (hfirst : ¬ (s.make i).inProgress = true) :
    s.complete ≠ true := h.not_complete (by simp [h.idle.1 (by simpa [make] using hfirst)])

lemma ControlOk.beginProcessExit {i : ℕ} {k : Kind} {status : ℤ} (h : ControlOk s) (hgoing : (s.loops i).Going) :
    ControlOk ((s.make i).beginProcessExit i k status) := by
  unfold State.beginProcessExit
  split
  case isTrue hfirst =>
    have hno : s.inProgress = false := by simpa [make] using hfirst
    have hcomplete := h.not_complete_of_first hfirst
    exact {
      idle := by simp
      complete := by simp
      waiting := fun j hj => absurd (h.waiting j hj).1 (by simp [hno])
      returns := fun r hr => ⟨(h.returns r hr).1, fun hd => absurd ((h.returns r hr).2 hd) hcomplete⟩
      owner := by
        rintro _ ⟨⟩
        exact hno ▸ head_make
      started := fun st hst => absurd (h.started st hst).1 (by simp [hno]) }
  case isFalse hnot =>
    have hin : s.inProgress = true := by simpa [make] using hnot
    split
    case isTrue howner =>
      exact { h with
        waiting := fun j hj => by
          rw [ret, calls_ret_make]
          exact h.waiting j hj
        owner := fun l hl => by
          rw [ret, calls_ret_make]
          exact h.owner l hl
        returns := forall_mem_cons.2 ⟨⟨⟨_, head_make, return_going hgoing hin⟩, nofun⟩, h.returns⟩ }
    case isFalse howner =>
      exact { h with
        waiting := fun j hj => by
          by_cases hji : j = i
          · subst hji
            exact ⟨hin, Ne.symm howner, hgoing, _, head_make, hin⟩
          · rw [calls_make_of_ne hji]
            exact h.waiting j (by simpa [make, update_of_ne hji] using hj)
        owner := fun l hl => by
          rw [calls_make_of_ne howner]
          exact h.owner l hl }

lemma ControlOk.wake {i : ℕ} (h : ControlOk s) (hi : s.waiting i = true) : ControlOk (s.wake i) := by
  unfold State.wake
  split
  case isFalse => exact h
  case isTrue hcomplete =>
    obtain ⟨-, hne, hgoing, m, hm, hin⟩ := h.waiting i hi
    exact { h with
      waiting := fun j hj => by
        by_cases hji : j = i
        · subst hji
          simp [ret] at hj
        · simpa [ret, update_of_ne hji] using h.waiting j (by simpa [ret, update_of_ne hji] using hj)
      returns := forall_mem_cons.2 ⟨⟨⟨m, hm, return_going hgoing hin⟩, fun _ => hcomplete⟩, h.returns⟩
      owner := fun l hl => by simpa [ret, update_of_ne hne.symm] using h.owner l hl }

section

variable (h : ControlOk s)
include h

lemma ControlOk.waiting_update {l : Loop} (i : ℕ) (hi : s.waiting i = true) :
    s.inProgress = true ∧ i ≠ s.owner ∧ (update s.loops s.owner l i).Going ∧
      ∃ m ∈ (s.calls i).head?, m.inProgress = true := by
  rw [update_of_ne (h.waiting i hi).2.1]
  exact h.waiting i hi

lemma ControlOk.runExitHandler {entered : Bool} (hp : s.phase = .running) : ControlOk (s.runExitHandler entered) := by
  have hin := h.inProgress_of_phase (by simp [hp])
  have hcomplete := h.not_complete (by simp [hp])
  have hfinished (st : Start) (hst : st ∈ s.started) : st.handler ∈ s.finished := by
    obtain ⟨-, -, hf | ⟨outer, hin'⟩⟩ := h.started st hst
    · exact hf
    · simp [hp] at hin'
  unfold State.runExitHandler
  split
  case h_1 =>
    exact { h with
      idle := iff_of_false (by simp [hin]) (by simp)
      complete := iff_of_false hcomplete (by simp)
      owner := fun l hl => h.owner l (hp ▸ hl)
      started := fun st hst => ⟨hin, (h.started st hst).2.1, .inl (hfinished st hst)⟩ }
  case h_2 hd rest _ =>
    split
    · exact { h with }
    · exact { h with
        idle := iff_of_false (by simp [hin]) (by simp)
        complete := iff_of_false hcomplete (by simp)
        waiting := h.waiting_update
        owner := fun l hl => h.owner l (hp ▸ hl)
        started := forall_mem_cons.2 ⟨⟨hin, rfl, .inr ⟨_, rfl⟩⟩,
          fun st hst => ⟨hin, (h.started st hst).2.1, .inl (hfinished st hst)⟩⟩ }

lemma ControlOk.handlerEnd {hd : ExitHandler} {outer : Loop} (hp : s.phase = .inHandler hd outer) :
    ControlOk (s.handlerEnd hd outer) := by
  have hin := h.inProgress_of_phase (by simp [hp])
  have hcomplete := h.not_complete (by simp [hp])
  exact { h with
    idle := iff_of_false (by simp [State.handlerEnd, hin]) (by simp [State.handlerEnd])
    complete := iff_of_false hcomplete (by simp [State.handlerEnd])
    waiting := h.waiting_update
    owner := by
      rintro _ ⟨⟩
      simpa [State.handlerEnd] using h.owner outer (hp ▸ rfl)
    started := fun st hst => by
      obtain ⟨-, howner, hf | ⟨outer', hin'⟩⟩ := h.started st hst
      · exact ⟨hin, howner, .inl (mem_cons_of_mem _ hf)⟩
      · rw [hp] at hin'
        cases hin'
        exact ⟨hin, howner, .inl mem_cons_self⟩ }

lemma ControlOk.finishProcessExitState (hp : s.phase = .closing) : ControlOk s.finishProcessExitState := by
  have hin := h.inProgress_of_phase (by simp [hp])
  exact { h with
    idle := iff_of_false (by simp [State.finishProcessExitState, hin]) (by simp [State.finishProcessExitState])
    complete := iff_of_true rfl (.inl rfl)
    returns := fun r hr => ⟨(h.returns r hr).1, fun _ => rfl⟩
    owner := fun l hl => h.owner l (hp ▸ hl)
    started := fun st hst => by
      obtain ⟨-, howner, hf | ⟨outer, hin'⟩⟩ := h.started st hst
      · exact ⟨hin, howner, .inl hf⟩
      · simp [hp] at hin' }

lemma ControlOk.finalizeProcessExit (hp : s.phase = .stopping) : ControlOk s.finalizeProcessExit := by
  have hin := h.inProgress_of_phase (by simp [hp])
  have hcomplete := h.complete.2 (.inl hp)
  have hmade := h.owner (s.loops s.owner) (hp ▸ rfl)
  unfold State.finalizeProcessExit
  split
  case isTrue => exact { h with }
  case isFalse =>
    exact {
      idle := iff_of_false (by simp [ret, hin]) (by simp [ret])
      complete := iff_of_true hcomplete (.inr rfl)
      waiting := fun i hi => by simpa [ret, update_of_ne (h.waiting i hi).2.1] using h.waiting i hi
      returns := by
        refine forall_mem_cons.2 ⟨⟨⟨_, hmade, ?_⟩, nofun⟩, h.returns⟩
        simp [Loop.going_stop]
      owner := nofun
      started := fun st hst => by
        obtain ⟨-, howner, hf | ⟨outer, hin'⟩⟩ := h.started st hst
        · exact ⟨hin, howner, .inl hf⟩
        · simp [hp] at hin' }

end

lemma ControlOk.switch {i : ℕ} {l : Loop} (h : ControlOk s) (hi : s.outside i) :
    ControlOk { s with loops := Function.update s.loops i l } := by
  refine { h with
    waiting := fun j hj => ?_
    owner := fun l hl => h.owner l ?_ }
  · have hne : j ≠ i := by
      rintro rfl
      have hno := hi.1
      rw [show s.waiting j = true from hj] at hno
      cases hno
    simpa [update_of_ne hne] using h.waiting j hj
  · by_cases heq : s.owner = i
    · have hguest := hi.2 heq
      revert hl hguest
      cases s.phase <;> simp [Phase.loop, Phase.inGuest]
    · simpa [update_of_ne heq] using hl

lemma ControlOk.step (h : ControlOk s) (hs : Steps s e s') : ControlOk s' := by
  cases hs with
  | register => exact { h with }
  | exit _ hgoing => exact h.beginProcessExit hgoing
  | wake hi => exact h.wake hi
  | handler hp => exact h.runExitHandler hp
  | handlerEnd hp => exact h.handlerEnd hp
  | finish hp => exact h.finishProcessExitState hp
  | stop hp => exact h.finalizeProcessExit hp
  | switch hi => exact h.switch hi

theorem controlOk_of_reach {C : State → Event → Prop} (h : system.Reach C s) : ControlOk s := by
  refine System.Reach.invariant (fun s hs => ?_) (fun s e s' h _ hs => h.step (steps_of_step hs)) h
  obtain ⟨loops, forkChild, rfl⟩ := hs
  exact controlOk_init loops forkChild

end Control

/-! ### The handlers -/

structure HandlersOk (s : State) : Prop where
  ids : ∀ r ∈ s.registered, r.2.id < s.registered.length
  sorted : s.registered.Pairwise fun a b => b.2.id < a.2.id
  sublist : ∀ k, (s.handlers k).Sublist (s.registeredOf k)
  known : ∀ st ∈ s.started, ∃ k, (k, st.handler) ∈ s.registered
  fresh : ∀ st ∈ s.started, ∀ k, st.handler ∉ s.handlers k
  once : (s.started.map Start.handler).Nodup
  newest : ∀ st ∈ s.started, ∀ h ∈ st.rest, h.id < st.handler.id

section Handlers

variable {s s' : State} {e : Event} {k k' : Kind} {h h' : ExitHandler}

lemma mem_registeredOf : h ∈ s.registeredOf k ↔ (k, h) ∈ s.registered := by
  simp [registeredOf]

lemma registeredOf_cons (hr : s'.registered = (k, h) :: s.registered) :
    s'.registeredOf k' = if k = k' then h :: s.registeredOf k' else s.registeredOf k' := by
  simp only [registeredOf, hr, filter_cons, decide_eq_true_eq]
  split <;> rfl

section

variable (hok : HandlersOk s)
include hok

lemma HandlersOk.mem_registered (hh : h ∈ s.handlers k) : (k, h) ∈ s.registered :=
  mem_registeredOf.1 ((hok.sublist k).subset hh)

lemma HandlersOk.kind_unique (hh : (k, h) ∈ s.registered) (hh' : (k', h) ∈ s.registered) :
    k = k' := by
  have hnodup : (s.registered.map fun r => r.2.id).Nodup := hok.sorted.map _ fun _ _ hlt => hlt.ne'
  exact congrArg Prod.fst (inj_on_of_nodup_map hnodup hh hh' rfl)

lemma HandlersOk.handlers_sorted (k : Kind) :
    (s.handlers k).Pairwise fun a b => b.id < a.id :=
  ((hok.sorted.filter _).map Prod.snd fun _ _ hlt => hlt).sublist (hok.sublist k)

lemma HandlersOk.congr (hr : s'.registered = s.registered) (hh : s'.handlers = s.handlers)
    (hst : s'.started = s.started) : HandlersOk s' where
  ids := by rw [hr]; exact hok.ids
  sorted := by rw [hr]; exact hok.sorted
  sublist := by
    intro k
    rw [hh, show s'.registeredOf k = s.registeredOf k by simp only [registeredOf, hr]]
    exact hok.sublist k
  known := by rw [hst, hr]; exact hok.known
  fresh := by rw [hst, hh]; exact hok.fresh
  once := by rw [hst]; exact hok.once
  newest := by rw [hst]; exact hok.newest

lemma HandlersOk.register {func arg : Word} {takesArg : Bool} :
    HandlersOk (s.register k func arg takesArg) where
  ids := forall_mem_cons.2 ⟨Nat.lt_succ_self _, fun r hr => Nat.lt_succ_of_lt (hok.ids r hr)⟩
  sorted := pairwise_cons.2 ⟨hok.ids, hok.sorted⟩
  sublist := by
    intro k'
    rw [registeredOf_cons (s := s) rfl]
    by_cases hk : k = k'
    · subst hk
      rw [if_pos rfl]
      simp only [State.register, update_self]
      exact (hok.sublist k).cons_cons _
    · rw [if_neg hk]
      simp only [State.register, update_of_ne (Ne.symm hk)]
      exact hok.sublist k'
  known := fun st hst => (hok.known st hst).imp fun _ hmem => mem_cons_of_mem _ hmem
  fresh := by
    intro st hst
    obtain ⟨k₀, hknown⟩ := hok.known st hst
    have hlt := hok.ids _ hknown
    refine (forall_update_iff s.handlers fun _ l => st.handler ∉ l).2 ⟨?_, fun k' _ => hok.fresh st hst k'⟩
    refine not_mem_cons_of_ne_of_not_mem (fun heq => ?_) (hok.fresh st hst k)
    -- The new handler has a number that no other one has.
    rw [heq] at hlt
    exact lt_irrefl _ hlt
  once := hok.once
  newest := hok.newest

lemma HandlersOk.pop {rest : List ExitHandler} (hcons : s.handlers k = h :: rest) :
    HandlersOk { s with handlers := update s.handlers k rest } := by
  have hsub : ∀ k', (update s.handlers k rest k').Sublist (s.handlers k') :=
    (forall_update_iff s.handlers fun k' l => l.Sublist (s.handlers k')).2
      ⟨hcons ▸ sublist_cons_self h rest, fun k' _ => Sublist.refl _⟩
  exact { hok with
    sublist := fun k' => (hsub k').trans (hok.sublist k')
    fresh := fun st hst k' hmem => hok.fresh st hst k' ((hsub k').subset hmem) }

lemma HandlersOk.not_mem_popped {rest : List ExitHandler} (hcons : s.handlers k = h :: rest)
    (k' : Kind) : h ∉ update s.handlers k rest k' := by
  have hsorted := hok.handlers_sorted k
  rw [hcons, pairwise_cons] at hsorted
  refine (forall_update_iff s.handlers fun _ l => h ∉ l).2 ⟨?_, fun k' hk hmem => ?_⟩ k'
  · exact fun hmem => lt_irrefl _ (hsorted.1 h hmem)
  · exact hk (hok.kind_unique (hok.mem_registered hmem) (hok.mem_registered (by rw [hcons]; exact mem_cons_self)))

lemma HandlersOk.runExitHandler {entered : Bool} : HandlersOk (s.runExitHandler entered) := by
  unfold State.runExitHandler
  split
  case h_1 => exact hok.congr rfl rfl rfl
  case h_2 h rest hcons =>
    have hmem : h ∈ s.handlers s.ownerKind := by rw [hcons]; exact mem_cons_self
    have hsorted := hok.handlers_sorted s.ownerKind
    rw [hcons, pairwise_cons] at hsorted
    have hpop := hok.pop hcons
    split
    case isTrue => exact hpop
    case isFalse =>
      exact { hpop with
        known := forall_mem_cons.2 ⟨⟨_, hok.mem_registered hmem⟩, hok.known⟩
        fresh := forall_mem_cons.2 ⟨hok.not_mem_popped hcons, hpop.fresh⟩
        once := by
          refine nodup_cons.2 ⟨fun hst => ?_, hok.once⟩
          obtain ⟨st, hst, heq⟩ := mem_map.1 hst
          exact hok.fresh st hst s.ownerKind (heq ▸ hmem)
        newest := forall_mem_cons.2 ⟨hsorted.1, hok.newest⟩ }

lemma HandlersOk.step (hs : Steps s e s') : HandlersOk s' := by
  cases hs with
  | register => exact hok.register
  | exit =>
    unfold beginProcessExit
    split
    · exact hok.congr rfl rfl rfl
    · split <;> exact hok.congr rfl rfl rfl
  | wake =>
    unfold wake
    split
    · exact hok.congr rfl rfl rfl
    · exact hok
  | handler => exact hok.runExitHandler
  | handlerEnd | finish => exact hok.congr rfl rfl rfl
  | stop =>
    unfold finalizeProcessExit
    split <;> exact hok.congr rfl rfl rfl
  | switch => exact hok.congr rfl rfl rfl

end

theorem handlersOk_of_reach {C : State → Event → Prop} (h : system.Reach C s) : HandlersOk s := by
  refine System.Reach.invariant (fun s hs => ?_) (fun s e s' h _ hs => h.step (steps_of_step hs)) h
  obtain ⟨loops, forkChild, rfl⟩ := hs
  exact ⟨nofun, List.Pairwise.nil, fun _ => List.Sublist.slnil, nofun, nofun, nodup_nil, nofun⟩

end Handlers

/-! ### No handler is lost -/

/-- Every handler is registered or was started, and those registered before the owner finished were started. -/
structure NoneLost (s : State) : Prop where
  kept : ∀ k h, (k, h) ∈ s.registered → h.func ≠ 0 → h ∈ s.handlers k ∨ h ∈ s.started.map Start.handler
  ran : ∀ n, s.finishedAt = some n → ∀ h, (s.ownerKind, h) ∈ s.registered → h.id < n → h.func ≠ 0 →
    h ∈ s.started.map Start.handler

/-- What is promised of `exit`: none is lost, each handler is started at most once, after those registered later, by the
owner, and nobody gets past the wait before all have finished. -/
structure ExitOk (s : State) : Prop extends NoneLost s where
  once : (s.started.map Start.handler).Nodup
  newest : ∀ st ∈ s.started, ∀ h ∈ st.rest, h.id < st.handler.id
  owner : ∀ st ∈ s.started, st.thread = s.owner
  waited : ∀ r ∈ s.returns, r.disposition = .nonOwnerWaited →
    s.complete = true ∧ ∀ st ∈ s.started, st.handler ∈ s.finished

/-- No call of a handler is refused, and none is registered between the last look at the list and the end. -/
def Undisturbed (s : State) : Event → Prop
  | .handler entered => entered = false → ∀ h ∈ (s.handlers s.ownerKind).head?, h.func = 0
  | .finish => ∀ h ∈ s.handlers s.ownerKind, h.func = 0
  | _ => True

instance : DecidableRel Undisturbed := fun s e => by
  unfold Undisturbed
  split <;> infer_instance

def FinishedAtOk (s : State) : Prop :=
  ∀ n, s.finishedAt = some n → s.complete = true ∧ n ≤ s.registered.length

section Lost

variable {s s' : State} {e : Event}

lemma finishedAtOk_step (hc : ControlOk s) (h : FinishedAtOk s) (hs : Steps s e s') : FinishedAtOk s' := by
  cases hs with
  | register => exact fun n hn => ⟨(h n hn).1, Nat.le_succ_of_le (h n hn).2⟩
  | exit =>
    unfold beginProcessExit
    split
    case isTrue hfirst =>
      intro n hn
      exact absurd (h n hn).1 (hc.not_complete_of_first hfirst)
    case isFalse => split <;> exact h
  | wake =>
    unfold wake
    split <;> exact h
  | handler =>
    unfold runExitHandler
    split
    · exact h
    · dsimp only
      split <;> exact h
  | handlerEnd => exact h
  | finish =>
    intro n hn
    cases hn
    exact ⟨rfl, le_rfl⟩
  | stop =>
    unfold finalizeProcessExit
    split <;> exact h
  | switch => exact h

lemma NoneLost.congr (h : NoneLost s) (hr : s'.registered = s.registered) (hh : s'.handlers = s.handlers)
    (hst : s'.started = s.started) (hf : s'.finishedAt = s.finishedAt) (hk : s'.ownerKind = s.ownerKind) :
    NoneLost s' where
  kept := by rw [hr, hh, hst]; exact h.kept
  ran := by rw [hr, hst, hf, hk]; exact h.ran

lemma FinishedAtOk.eq_none (h : FinishedAtOk s) (hc : s.complete ≠ true) : s.finishedAt = none := by
  cases hn : s.finishedAt with
  | none => rfl
  | some n => exact absurd (h n hn).1 hc

lemma NoneLost.register {k : Kind} {func arg : Word} {takesArg : Bool} (hf : FinishedAtOk s) (h : NoneLost s) :
    NoneLost (s.register k func arg takesArg) where
  kept := by
    intro k' hd hmem hfunc
    by_cases hk : k' = k
    · subst hk
      simp only [State.register, update_self, mem_cons]
      obtain heq | hold := mem_cons.1 hmem
      · cases heq
        exact .inl (.inl rfl)
      · exact (h.kept k' hd hold hfunc).imp_left .inr
    · simp only [State.register, update_of_ne hk]
      obtain heq | hold := mem_cons.1 hmem
      · cases heq
        exact absurd rfl hk
      · exact h.kept k' hd hold hfunc
  ran := by
    intro n hn hd hmem hlt hfunc
    obtain heq | hold := mem_cons.1 hmem
    · -- The new handler comes after the owner has finished.
      rw [show hd.id = s.registered.length from congrArg (fun r => r.2.id) heq] at hlt
      exact absurd (hf n hn).2 (Nat.not_le_of_lt hlt)
    · exact h.ran n hn hd hold hlt hfunc

lemma noneLost_runExitHandler_iff {entered : Bool} (hh : HandlersOk s) (hf : s.finishedAt = none) (h : NoneLost s) :
    NoneLost (s.runExitHandler entered) ↔ Undisturbed s (.handler entered) := by
  unfold runExitHandler
  split
  case h_1 hnil =>
    exact iff_of_true (h.congr rfl rfl rfl rfl rfl) fun _ hd hmem => by simp [hnil] at hmem
  case h_2 hd rest hcons =>
    have hmem : hd ∈ s.handlers s.ownerKind := by rw [hcons]; exact mem_cons_self
    -- All but the first handler are where they were.
    have hrest (k : Kind) (h' : ExitHandler) (hr : (k, h') ∈ s.registered) (hfunc : h'.func ≠ 0) (hne : h' ≠ hd) :
        h' ∈ update s.handlers s.ownerKind rest k ∨ h' ∈ s.started.map Start.handler := by
      refine (h.kept k h' hr hfunc).imp_left fun hin => ?_
      by_cases hk : k = s.ownerKind
      · subst hk
        rw [update_self]
        rw [hcons] at hin
        exact (mem_cons.1 hin).resolve_left hne
      · rw [update_of_ne hk]
        exact hin
    by_cases hfunc : hd.func = 0
    · rw [if_pos (.inl hfunc)]
      refine iff_of_true ⟨fun k h' hr hfunc' => hrest k h' hr hfunc' ?_, h.ran⟩ fun _ h' hmem' => ?_
      · rintro rfl
        exact hfunc' hfunc
      · rw [hcons] at hmem'
        cases hmem'
        exact hfunc
    · cases entered with
      | false =>
        rw [if_pos (.inr rfl)]
        refine iff_of_false (fun hlost => ?_) fun hundisturbed => hfunc (hundisturbed rfl hd (by simp [hcons]))
        obtain hin | hin := hlost.kept s.ownerKind hd (hh.mem_registered hmem) hfunc
        · exact hh.not_mem_popped hcons _ hin
        · obtain ⟨st, hst, heq⟩ := mem_map.1 hin
          exact hh.fresh st hst s.ownerKind (heq ▸ hmem)
      | true =>
        rw [if_neg (not_or.2 ⟨hfunc, by simp⟩)]
        refine iff_of_true ⟨fun k h' hr hfunc' => ?_, fun n hn => ?_⟩ nofun
        · by_cases hne : h' = hd
          · exact .inr (by simp [hne])
          · exact (hrest k h' hr hfunc' hne).imp_right (mem_cons_of_mem _)
        · rw [show s.finishedAt = some n from hn] at hf
          cases hf

lemma noneLost_finish_iff (hh : HandlersOk s) (h : NoneLost s) :
    NoneLost s.finishProcessExitState ↔ Undisturbed s .finish := by
  constructor
  · intro hlost hd hmem
    by_contra hfunc
    have hr := hh.mem_registered hmem
    obtain ⟨st, hst, heq⟩ := mem_map.1 (hlost.ran _ rfl hd hr (hh.ids _ hr) hfunc)
    exact hh.fresh st hst s.ownerKind (heq ▸ hmem)
  · intro hnull
    refine ⟨h.kept, fun n _ hd hr _ hfunc => ?_⟩
    exact (h.kept _ hd hr hfunc).resolve_left fun hin => hfunc (hnull hd hin)

lemma noneLost_step_iff (hc : ControlOk s) (hh : HandlersOk s) (hf : FinishedAtOk s) (h : NoneLost s)
    (hs : Steps s e s') : NoneLost s' ↔ Undisturbed s e := by
  cases hs with
  | register => exact iff_of_true (h.register hf) trivial
  | exit =>
    refine iff_of_true ?_ trivial
    unfold beginProcessExit
    split
    case isTrue hfirst =>
      have hnone := hf.eq_none (hc.not_complete_of_first hfirst)
      refine ⟨h.kept, fun n hn => ?_⟩
      rw [show s.finishedAt = some n from hn] at hnone
      cases hnone
    case isFalse => split <;> exact h.congr rfl rfl rfl rfl rfl
  | wake =>
    refine iff_of_true ?_ trivial
    unfold wake
    split
    · exact h.congr rfl rfl rfl rfl rfl
    · exact h
  | handler hp => exact noneLost_runExitHandler_iff hh (hf.eq_none (hc.not_complete (by simp [hp]))) h
  | handlerEnd => exact iff_of_true (h.congr rfl rfl rfl rfl rfl) trivial
  | finish => exact noneLost_finish_iff hh h
  | stop =>
    refine iff_of_true ?_ trivial
    unfold finalizeProcessExit
    split <;> exact h.congr rfl rfl rfl rfl rfl
  | switch => exact iff_of_true (h.congr rfl rfl rfl rfl rfl) trivial

lemma exitOk_iff (hc : ControlOk s) (hh : HandlersOk s) : ExitOk s ↔ NoneLost s := by
  refine ⟨fun h => h.toNoneLost, fun h => ⟨h, hh.once, hh.newest, fun st hst => (hc.started st hst).2.1, ?_⟩⟩
  intro r hr hd
  have hcomplete := (hc.returns r hr).2 hd
  refine ⟨hcomplete, fun st hst => ?_⟩
  obtain ⟨-, -, hf | ⟨outer, hin⟩⟩ := hc.started st hst
  · exact hf
  · exact absurd hcomplete (hc.not_complete (by simp [hin]))

lemma noneLost_of_reach (h : system.Reach Undisturbed s) : FinishedAtOk s ∧ NoneLost s := by
  have hall : (ControlOk s ∧ HandlersOk s) ∧ FinishedAtOk s ∧ NoneLost s := by
    refine System.Reach.invariant (I := fun s => (ControlOk s ∧ HandlersOk s) ∧ FinishedAtOk s ∧ NoneLost s)
      (fun s hs => ?_) (fun s e s' ih hu hs => ?_) h
    · have hreach : system.Reachable s := .init hs
      refine ⟨⟨controlOk_of_reach hreach, handlersOk_of_reach hreach⟩, ?_⟩
      obtain ⟨loops, forkChild, rfl⟩ := hs
      exact ⟨nofun, nofun, nofun⟩
    · obtain ⟨⟨hc, hh⟩, hf, hl⟩ := ih
      have hs := steps_of_step hs
      exact ⟨⟨hc.step hs, hh.step hs⟩, finishedAtOk_step hc hf hs, (noneLost_step_iff hc hh hf hl hs).2 hu⟩
  exact hall.2

end Lost

/-- **All that is promised of `exit` holds as long as no call of a handler is refused and no handler is registered after
the last look at the list; the first such step breaks it.** -/
theorem exitOk_iff_undisturbed {s : State} (h : system.Reach Undisturbed s) :
    ExitOk s ∧ ∀ e s', s.step e = some s' → (ExitOk s' ↔ Undisturbed s e) := by
  have hc := controlOk_of_reach h
  have hh := handlersOk_of_reach h
  obtain ⟨hf, hl⟩ := noneLost_of_reach h
  refine ⟨(exitOk_iff hc hh).2 hl, fun e s' hs => ?_⟩
  have hs := steps_of_step hs
  rw [exitOk_iff (hc.step hs) (hh.step hs), noneLost_step_iff hc hh hf hl hs]

/-- Two handlers run while a second thread waits in its own call, until the owner has finished and that call returns. -/
theorem exitOk_two_threads :
    ∃ s, system.Reach Undisturbed s ∧ s.started.map (·.handler.func) = [0x5000, 0x6000] ∧ s.finishedAt = some 2 ∧
      s.returns = [⟨1, .nonOwnerWaited, .start true, some ⟨true, .start true⟩⟩] ∧ ExitOk s := by
  have hrun : ([Event.register 0 (.atexit 0x5000), .register 1 (.atexit 0x6000), .exit 0 .atexit 0, .handler true,
      .exit 1 .atexit 1, .handlerEnd, .handler true, .handlerEnd, .handler true, .finish, .wake 1].foldlM
      (System.checked Undisturbed step) (.init (fun _ => .start true) false)).map
      (fun s => (s.started.map (·.handler.func), s.finishedAt, s.returns)) =
      some ([0x5000, 0x6000], some 2, [⟨1, .nonOwnerWaited, .start true, some ⟨true, .start true⟩⟩]) := by
    decide +kernel
  obtain ⟨s, hs, heq⟩ := Option.map_eq_some_iff.1 hrun
  obtain ⟨hstarted, hfinished, hreturns⟩ : _ ∧ _ ∧ _ := ⟨congrArg (·.1) heq, congrArg (·.2.1) heq, congrArg (·.2.2) heq⟩
  have hreach : system.Reach Undisturbed s := System.Reach.foldlM _ (.init ⟨_, _, rfl⟩) hs
  exact ⟨s, hreach, hstarted, hfinished, hreturns, (exitOk_iff_undisturbed hreach).1⟩

/-- A handler that is registered after the owner has found the list empty is never started. -/
theorem late_handler_lost :
    ∃ s, [Event.exit 0 .atexit 0, .handler true, .register 1 (.atexit 0x5000), .finish].foldlM step
        (.init (fun _ => .start true) false) = some s ∧
      system.Reachable s ∧ s.finishedAt = some 1 ∧ s.registered = [(.atexit, ⟨0, 0x5000, 0, false⟩)] ∧
      s.started = [] := by
  refine ⟨_, (Option.some_get (by decide)).symm, System.Reachable.foldlM (.init ⟨_, _, rfl⟩) (Option.some_get _).symm, ?_⟩
  decide

end CrossShim.Process
