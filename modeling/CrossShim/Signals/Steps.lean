import CrossShim.Signals.State

/-!
# What the guest can do to the signal state

`call_does` says what a call can do: it keeps the state but for what it waits for, it sets the mask or an action, it
makes a signal pending, or it calls a handler.  `handlerReturn_does` says the same of the return from a handler.

The active signals are those of the frames, each once (`FramesOk`).
-/

namespace CrossShim.Signals

open Lib Mask List Function State

def Call.Sets : Call → Bool
  | .sigaction .. | .signal .. | .sigprocmask .. | .pthreadSigmask .. | .rtSigprocmask .. | .sigignore ..
  | .sighold .. | .sigrelse .. | .sigset .. | .sigblock .. | .sigsetmask .. | .siglongjmp .. => true
  | _ => false

section Sets

variable (s : State)

def ignorable (signum : ℤ) : Option Signal := (Signal.ofNum signum).filter (·.Ignorable)

/-- The mask that a call sets, before it is normalised. -/
def Call.setMask : Call → Option Word
  | .sigprocmask how new | .pthreadSigmask how new => new.bind (changed how)
  | .rtSigprocmask how new wantsOld sigsetsize =>
    if sigsetsize < 8 then none
    else if new = none ∧ wantsOld ∧ s.active = 0 then some 0
    else new.bind (changed how)
  | .sighold signum => (ignorable signum).map (s.blocked ||| bit ·)
  | .sigrelse signum => (ignorable signum).map (s.blocked &&& ~~~bit ·)
  | .sigset signum handler => (ignorable signum).map fun sig =>
    if handler = sigHold then s.blocked ||| bit sig else s.blocked &&& ~~~bit sig
  | .sigblock mask => some (s.blocked ||| mask.setWidth 64 &&& lowSignals)
  | .sigsetmask mask => some (s.blocked &&& ~~~lowSignals ||| mask.setWidth 64 &&& lowSignals)
  | .siglongjmp env _ restore => if env ≠ 0 ∧ restore ∧ (s.bufs env).saved then some (s.bufs env).mask else none
  | _ => none
where
  changed (how : How) (new : Word) : Option Word :=
    match how with
    | .block => some (s.blocked ||| new)
    | .unblock => some (s.blocked &&& ~~~new)
    | .setmask => some new
    | .other => none

def Call.newMask (c : Call) : Word := (c.setMask s).elim s.blocked normalizeProcessMask

/-- The actions after a call. -/
def Call.newActions : Call → Signal → SigAction
  | .sigaction signum new => (Signal.ofNum signum).elim s.actions fun sig =>
    update s.actions sig (new.getD (s.actions sig))
  | .signal signum handler => (Signal.ofNum signum).elim s.actions fun sig =>
    update s.actions sig { handlerPtr := handler }
  | .sigignore signum => (ignorable signum).elim s.actions fun sig => update s.actions sig { handlerPtr := sigIgn }
  | .sigset signum handler => (ignorable signum).elim s.actions fun sig =>
    if handler = sigHold then s.actions
    else update s.actions sig { s.actions sig with handlerPtr := handler, saFlags := 0 }
  | _ => s.actions

/-- The mask and the actions are the new ones, and of the rest nothing has changed. -/
structure SetBy (c : Call) (s' : State) : Prop where
  blocked : s'.blocked = c.newMask s
  actions : s'.actions = c.newActions s
  pending : s'.pending = s.pending
  active : s'.active = s.active
  frames : s'.frames = s.frames

variable {s}

lemma withIgnorable_eq {signum : ℤ} {error : Ret} {f : Signal → State} :
    s.withIgnorable signum error f = (ignorable signum).elim (s.answer error) f := by
  unfold withIgnorable ignorable
  cases Signal.ofNum signum with
  | none => rfl
  | some sig => by_cases h : sig.Ignorable <;> simp [Option.filter, h]

/-- **What the calls set** that are to set something. -/
lemma setBy_call {c : Call} (hc : c.Sets = true) : SetBy s c (s.call c) := by
  cases c with
  | sigaction signum new =>
    simp only [call, sigaction]
    cases hsig : Signal.ofNum signum <;> exact ⟨rfl, by rw [Call.newActions, hsig]; rfl, rfl, rfl, rfl⟩
  | signal signum handler =>
    simp only [call, signal]
    cases hsig : Signal.ofNum signum <;> exact ⟨rfl, by rw [Call.newActions, hsig]; rfl, rfl, rfl, rfl⟩
  | sigprocmask how new | pthreadSigmask how new =>
    cases new with
    | none => exact ⟨rfl, rfl, rfl, rfl, rfl⟩
    | some m => cases how <;> exact ⟨rfl, rfl, rfl, rfl, rfl⟩
  | rtSigprocmask how new wantsOld sigsetsize =>
    constructor
    all_goals
      simp only [call, rtSigprocmask, Call.newMask, Call.setMask, Call.newActions]
      split
      · rfl
      · cases new with
        | none =>
          dsimp only [applySignalMaskChange]
          split <;> rfl
        | some m =>
          simp only [reduceCtorEq, false_and, if_false]
          cases how <;> rfl
  | sigignore signum =>
    simp only [call, sigignore, withIgnorable_eq]
    cases hsig : ignorable signum <;> exact ⟨rfl, by rw [Call.newActions, hsig]; rfl, rfl, rfl, rfl⟩
  | sighold signum | sigrelse signum =>
    simp only [call, sighold, sigrelse, withIgnorable_eq]
    cases hsig : ignorable signum <;> exact ⟨by rw [Call.newMask, Call.setMask, hsig]; rfl, rfl, rfl, rfl, rfl⟩
  | sigset signum handler =>
    simp only [call, sigset, withIgnorable_eq]
    cases hsig : ignorable signum with
    | none => exact ⟨by rw [Call.newMask, Call.setMask, hsig]; rfl, by rw [Call.newActions, hsig]; rfl, rfl, rfl, rfl⟩
    | some sig =>
      by_cases hhold : handler = sigHold
      all_goals
        simp only [Option.elim, hhold, if_true, if_false]
        exact ⟨by simp [Call.newMask, Call.setMask, hsig, hhold]; rfl, by simp [Call.newActions, hsig, hhold]; rfl,
          rfl, rfl, rfl⟩
  | sigblock mask | sigsetmask mask => exact ⟨rfl, rfl, rfl, rfl, rfl⟩
  | siglongjmp env value restore =>
    constructor
    all_goals
      simp only [call, siglongjmp, Call.newMask, Call.setMask, Call.newActions]
      by_cases henv : env = 0
      · simp [henv]
      · simp only [henv, if_false, ne_eq, not_false_eq_true, true_and]
        split <;> rfl
  | _ => cases hc

end Sets

/-- The handlers are the same, and those that run. -/
structure Keeps (s s' : State) : Prop where
  actions : s'.actions = s.actions
  active : s'.active = s.active
  frames : s'.frames = s.frames

/-- The first pending signal that is not in the mask. -/
def State.unblockedBy (s : State) (mask : Word) : Option Signal :=
  (finRange 64).find? fun sig => Has (s.pending &&& (s.pending &&& ~~~mask)) sig

/-- The signal that a call delivers at once. -/
def Call.delivers (s : State) : Call → Option Signal
  | .queue signum _ | .queueForTid signum _ false =>
    (Signal.ofNum signum).filter fun sig => ¬ (Has s.blocked sig ∨ Has s.active sig)
  | .pthreadSigqueue signum _ => Signal.ofNum signum
  | .sigsuspend mask => s.unblockedBy (normalizeProcessMask mask)
  | .sigpause signum => (ignorable signum).bind fun sig =>
    s.unblockedBy (normalizeProcessMask (s.blocked &&& ~~~bit sig))
  | _ => none

/-- The handler is called if the signal is delivered. -/
def State.Starts (s : State) (sig : Signal) : Prop :=
  (s.actions sig).Caught ∧ ¬ Has s.active sig ∧ ¬ s.Refused sig

/-- The state in which a call delivers a signal: under the mask of the guest, or under one that the call sets. -/
structure Delivers (s : State) (sig : Signal) (b p : Word) (after : After) : Prop where
  pending : ∀ sig, Has p sig → Has s.pending sig
  pend : p ||| bit sig = s.pending ||| bit sig
  mask : (b = s.blocked ∧ after.restore = none) ∨ ((∃ m, b = normalizeProcessMask m) ∧ after.restore = some s.blocked)

inductive Does (s : State) (c : Call) : State → Prop
  | keep {s'} (hk : Keeps s s') (hb : s'.blocked = s.blocked) (hp : ∀ sig, Has s'.pending sig → Has s.pending sig)
      (hq : ∀ sig ∈ c.delivers s, ¬ s.Starts sig) : Does s c s'
  | sets {s'} (hc : c.Sets = true) (h : SetBy s c s') : Does s c s'
  | pend {s'} (sig : Signal) (hk : Keeps s s') (hb : s'.blocked = s.blocked)
      (hp : s'.pending = s.pending ||| bit sig) (hsig : Has s.blocked sig ∨ Has s.active sig)
      (hq : ∀ sig ∈ c.delivers s, ¬ s.Starts sig) : Does s c s'
  | start (hc : c.Sets = false) (sig : Signal) (info : Signal → SignalInfo) (b p : Word) (after : After)
      (hstarts : s.Starts sig) (hdel : c.delivers s = some sig) (hd : Delivers s sig b p after) :
      Does s c (({ s with info := info, blocked := b, pending := p } : State).callHandler sig after)

section Calls

variable {s s' : State} {c : Call} {sig : Signal} {after : After} {info : Signal → SignalInfo} {b p : Word}

lemma deliver_cases (s : State) (sig : Signal) (after : After) :
    (¬ (s.actions sig).Caught ∧ s.deliverGuestSignal sig after = s.resume after) ∨
      (Has s.active sig ∧
        s.deliverGuestSignal sig after = ({ s with pending := s.pending ||| bit sig } : State).resume after) ∨
      (s.Refused sig ∧ s.deliverGuestSignal sig after = s.refuse sig after) ∨
      (s.Starts sig ∧ s.deliverGuestSignal sig after = s.callHandler sig after) := by
  unfold deliverGuestSignal
  split
  case isTrue h => exact .inl ⟨h, rfl⟩
  case isFalse h =>
    split
    case isTrue ha => exact .inr (.inl ⟨ha, rfl⟩)
    case isFalse ha =>
      split
      case isTrue hr => exact .inr (.inr (.inl ⟨hr, rfl⟩))
      case isFalse hr => exact .inr (.inr (.inr ⟨⟨not_not.1 h, ha, hr⟩, rfl⟩))

lemma has_pending_refuse {sig' : Signal} (h : Has (s.refuse sig after).pending sig') : Has s.pending sig' := by
  change Has (if _ then _ else _) sig' at h
  split at h
  · exact (has_and.1 h).1
  · exact h

lemma refuse_of_not_pending (h : ¬ Has s.pending sig) : s.refuse sig after = s.resume after := by
  rw [refuse, if_neg fun hno => h hno.1]

lemma Does.answer (hdel : c.delivers s = none) (ret : Ret) : Does s c (s.answer ret) :=
  .keep ⟨rfl, rfl, rfl⟩ rfl (fun _ h => h) (by simp [hdel])

lemma Does.deliver (hc : c.Sets = false) (hdel : c.delivers s = some sig) (hd : Delivers s sig b p after) :
    Does s c (({ s with info := info, blocked := b, pending := p } : State).deliverGuestSignal sig after) := by
  have hrestored : after.restore.getD b = s.blocked := by
    obtain ⟨rfl, h⟩ | ⟨-, h⟩ := hd.mask <;> rw [h] <;> rfl
  have hq (h : ¬ s.Starts sig) : ∀ sig' ∈ c.delivers s, ¬ s.Starts sig' := by
    simpa [hdel] using h
  obtain ⟨hno, h⟩ | ⟨ha, h⟩ | ⟨hr, h⟩ | ⟨hstarts, h⟩ :=
    deliver_cases ({ s with info := info, blocked := b, pending := p } : State) sig after
  · exact h ▸ .keep ⟨rfl, rfl, rfl⟩ hrestored hd.pending (hq fun hs => hno hs.1)
  · exact h ▸ .pend sig ⟨rfl, rfl, rfl⟩ hrestored hd.pend (.inr ha) (hq fun hs => hs.2.1 ha)
  · exact h ▸ .keep ⟨rfl, rfl, rfl⟩ hrestored (fun sig' h => hd.pending sig' (has_pending_refuse h))
      (hq fun hs => hs.2.2 hr)
  · exact h ▸ .start hc sig info b p after hstarts hdel hd

lemma Does.queue (hc : c.Sets = false) (signum : ℤ) (info : SignalInfo)
    (hdel : c.delivers s = (Call.queue signum info).delivers s) : Does s c (s.queueGuestSignal signum info) := by
  unfold queueGuestSignal
  rw [Call.delivers] at hdel
  split
  case h_1 hnum => exact .answer (by rw [hdel, hnum]; rfl) _
  case h_2 sig hnum =>
    rw [hnum] at hdel
    dsimp only
    split
    case isTrue h => exact .pend sig ⟨rfl, rfl, rfl⟩ rfl rfl h (by simp [hdel, Option.filter, h])
    case isFalse h =>
      exact .deliver hc (by simpa [Option.filter, h] using hdel) ⟨fun _ h => h, rfl, .inl ⟨rfl, rfl⟩⟩

lemma consume_cases {waitMask : Word} (h : s.consumePendingSignal waitMask = some (sig, s')) :
    ((finRange 64).find? fun sig => Has (s.pending &&& waitMask) sig) = some sig ∧
      s' = { s with pending := s.pending &&& ~~~bit sig } := by
  obtain ⟨sig', hfind, heq⟩ := Option.map_eq_some_iff.1 h
  obtain ⟨rfl, rfl⟩ := Prod.mk.inj heq
  exact ⟨hfind, rfl⟩

/-- A signal that is waited for under a mask: what was pending stays so if it cannot be delivered. -/
lemma Does.suspend (hc : c.Sets = false) {m : Word} (hm : ∃ m', m = normalizeProcessMask m')
    (hdel : c.delivers s = s.unblockedBy m) : Does s c (s.suspendWith m) := by
  unfold suspendWith
  dsimp only
  split
  case h_1 hnone => exact .answer (hdel.trans (Option.map_eq_none_iff.1 hnone)) _
  case h_2 sig s' hcons =>
    obtain ⟨hfind, rfl⟩ := consume_cases hcons
    refine .deliver hc (hdel.trans hfind) ⟨fun _ h => (has_and.1 h).1, ?_, .inr ⟨hm, rfl⟩⟩
    ext i hi
    simp only [BitVec.getElem_or, BitVec.getElem_and, BitVec.getElem_not]
    cases (bit sig)[i] <;> simp

lemma Does.wait (hdel : c.delivers s = none) (set : Word) (error : Ret) (found : Signal → SignalInfo → Ret) :
    Does s c (s.waitForPendingSignal set error found) := by
  unfold waitForPendingSignal
  split
  case h_1 => exact .answer hdel _
  case h_2 sig s' hcons =>
    obtain ⟨-, rfl⟩ := consume_cases hcons
    exact .keep ⟨rfl, rfl, rfl⟩ rfl (fun _ h => (has_and.1 h).1) (by simp [hdel])

/-- **What a call can do.** -/
theorem call_does (s : State) (c : Call) : Does s c (s.call c) := by
  cases hc : c.Sets with
  | true => exact .sets hc (setBy_call hc)
  | false =>
    cases c with
    | sigaltstack requested =>
      have hstack (a : Altstack) (ret : Ret) : Does s (.sigaltstack requested)
          (({ s with altstack := a } : State).answer ret) := .keep ⟨rfl, rfl, rfl⟩ rfl (fun _ h => h) nofun
      change Does s _ (s.sigaltstack requested)
      unfold sigaltstack
      dsimp only
      split
      · exact .answer rfl _
      · exact .answer rfl _
      · split
        · exact .answer rfl _
        · split
          · exact .answer rfl _
          · split
            · exact hstack ..
            · exact hstack ..
    | queue signum info => exact .queue rfl signum info rfl
    | queueForTid signum info other =>
      change Does s _ (s.queueGuestSignalForTid signum info other)
      unfold queueGuestSignalForTid
      split
      case isTrue hnum => cases other <;> exact .answer (by simp_all [Call.delivers]) _
      case isFalse =>
        cases other with
        | true => exact .answer rfl _
        | false => exact .queue rfl signum info rfl
    | pthreadSigqueue signum info =>
      change Does s _ (s.pthreadSigqueue signum info)
      unfold pthreadSigqueue
      split
      case h_1 hnum => exact .answer (by exact hnum) _
      case h_2 sig hnum => exact .deliver rfl hnum ⟨fun _ h => h, rfl, .inl ⟨rfl, rfl⟩⟩
    | sigpending => exact .answer rfl _
    | sigsuspend mask => exact .suspend rfl ⟨_, rfl⟩ rfl
    | sigwait set =>
      change Does s _ (s.sigwait set)
      unfold sigwait
      exact .wait rfl set _ _
    | sigwaitinfo set =>
      change Does s _ (s.sigwaitinfo set)
      unfold sigwaitinfo
      exact .wait rfl set _ _
    | sigpause signum =>
      change Does s _ (s.sigpause signum)
      rw [sigpause, withIgnorable_eq]
      cases hsig : ignorable signum with
      | none => exact .answer (by simp [Call.delivers, hsig]) _
      | some sig => exact .suspend rfl ⟨_, rfl⟩ (by simp [Call.delivers, hsig])
    | sigsetjmp env save =>
      change Does s _ (s.sigsetjmp env save)
      unfold sigsetjmp
      split
      · exact .answer rfl _
      · exact .keep ⟨rfl, rfl, rfl⟩ rfl (fun _ h => h) nofun
    | _ => cases hc

end Calls

section Handlers

/-- The handler that has returned is called once more. -/
def Redelivers (s : State) (f : Frame) (rest : List Frame) : Prop :=
  Has s.pending f.signum ∧ ¬ Has f.oldMask f.signum ∧ (s.actions f.signum).Caught ∧
    ¬ (s.endHandler f rest).Refused f.signum

/-- The mask when the handler has returned and the call that delivered the signal goes on. -/
def Frame.finalMask (f : Frame) : Word := f.after.restore.getD f.oldMask

inductive Returns (s : State) (f : Frame) (rest : List Frame) : State → Prop
  | done (p : Word) (hno : ¬ Redelivers s f rest) (hp : ∀ sig, (s.actions sig).Caught →
        (Has p sig ↔ Has s.pending sig ∧ ¬ (sig = f.signum ∧ ¬ Has f.oldMask sig))) :
      Returns s f rest (({ s.endHandler f rest with pending := p } : State).resume f.after)
  | again (h : Redelivers s f rest) :
      Returns s f rest (({ s.endHandler f rest with pending := s.pending &&& ~~~bit f.signum } : State).callHandler
        f.signum f.after)

/-- **What the return from a handler can do.** -/
theorem handlerReturn_does {s s' : State} (h : s.handlerReturn = some s') :
    ∃ f rest, s.frames = f :: rest ∧ Returns s f rest s' := by
  unfold handlerReturn at h
  split at h
  case h_1 => exact absurd h (by simp)
  case h_2 f rest hframes =>
    refine ⟨f, rest, hframes, ?_⟩
    cases h
    unfold redeliver
    split
    case isFalse hno =>
      refine .done s.pending (fun h => hno ⟨h.1, h.2.1⟩) fun sig _ => ⟨fun hsig => ⟨hsig, ?_⟩, And.left⟩
      rintro ⟨rfl, hmask⟩
      exact hno ⟨hsig, hmask⟩
    case isTrue hyes =>
      have hp (sig : Signal) : Has (s.pending &&& ~~~bit f.signum) sig ↔
          Has s.pending sig ∧ ¬ (sig = f.signum ∧ ¬ Has f.oldMask sig) := by
        rw [has_and, has_not, has_bit]
        refine and_congr_right fun _ => not_congr ⟨?_, And.left⟩
        rintro rfl
        exact ⟨rfl, hyes.2⟩
      obtain ⟨hcaught, h⟩ | ⟨ha, h⟩ | ⟨hr, h⟩ | ⟨⟨hcaught, -, hr⟩, h⟩ := deliver_cases
        ({ s.endHandler f rest with pending := s.pending &&& ~~~bit f.signum } : State) f.signum f.after
      · exact h ▸ .done _ (fun h => hcaught h.2.2.1) fun sig _ => hp sig
      · exact absurd ha (by simp [endHandler])
      · have hgone : ¬ Has (s.pending &&& ~~~bit f.signum) f.signum := by simp
        exact h.trans (refuse_of_not_pending hgone) ▸ .done _ (fun h => h.2.2.2 hr) fun sig _ => hp sig
      · exact h ▸ .again ⟨hyes.1, hyes.2, hcaught, hr⟩

/-- The active signals are those whose handlers run, each once. -/
structure FramesOk (s : State) : Prop where
  active : s.active = ofList (s.frames.map Frame.signum)
  nodup : (s.frames.map Frame.signum).Nodup

variable {s s' : State} {f : Frame} {rest : List Frame}

lemma FramesOk.congr (h : FramesOk s) (ha : s'.active = s.active) (hf : s'.frames = s.frames) : FramesOk s' :=
  ⟨by rw [ha, hf, h.active], by rw [hf]; exact h.nodup⟩

lemma FramesOk.callHandler {sig : Signal} (h : FramesOk s) (hsig : ¬ Has s.active sig) (after : After) :
    FramesOk (s.callHandler sig after) := by
  constructor
  · change s.active ||| bit sig = bit sig ||| ofList (s.frames.map Frame.signum)
    rw [h.active, BitVec.or_comm]
  · refine nodup_cons.2 ⟨fun hmem => hsig ?_, h.nodup⟩
    rw [h.active, has_ofList]
    exact hmem

lemma FramesOk.endHandler (h : FramesOk s) (hf : s.frames = f :: rest) : FramesOk (s.endHandler f rest) := by
  have hnodup := h.nodup
  rw [hf, map_cons, nodup_cons] at hnodup
  refine ⟨?_, hnodup.2⟩
  change s.active &&& ~~~bit f.signum = ofList (rest.map Frame.signum)
  rw [h.active, hf, map_cons, ofList_cons_and_not hnodup.1]

lemma FramesOk.call {c : Call} (h : FramesOk s) (hd : Does s c s') : FramesOk s' := by
  cases hd with
  | keep hk | pend _ hk => exact h.congr hk.active hk.frames
  | sets _ hset => exact h.congr hset.active hset.frames
  | start _ sig info b p after hstarts =>
    have hmid : FramesOk { s with info := info, blocked := b, pending := p } := h.congr rfl rfl
    exact hmid.callHandler hstarts.2.1 after

lemma FramesOk.handlerReturn (h : FramesOk s) (hf : s.frames = f :: rest) (hr : Returns s f rest s') : FramesOk s' := by
  have hend := h.endHandler hf
  cases hr with
  | done p => exact hend.congr rfl rfl
  | again =>
    have hmid : FramesOk { s.endHandler f rest with pending := s.pending &&& ~~~bit f.signum } := hend.congr rfl rfl
    exact hmid.callHandler (by simp [State.endHandler]) f.after

lemma FramesOk.step {e : Event} (h : FramesOk s) (hs : s.step e = some s') : FramesOk s' := by
  cases e with
  | call c =>
    cases hs
    exact h.call (call_does s c)
  | handlerReturn =>
    obtain ⟨f, rest, hf, hr⟩ := handlerReturn_does hs
    exact h.handlerReturn hf hr

theorem framesOk_of_reach {C : State → Event → Prop} (h : system.Reach C s) : FramesOk s := by
  refine System.Reach.invariant (fun s hs => ?_) (fun _ _ _ h _ hs => h.step hs) h
  obtain ⟨depth, rfl⟩ := hs
  exact ⟨rfl, nodup_nil⟩

lemma FramesOk.active_eq_zero (h : FramesOk s) : s.active = 0 ↔ s.frames = [] := by
  rw [h.active]
  constructor
  · intro h0
    by_contra hne
    obtain ⟨f, rest, hf⟩ := exists_cons_of_ne_nil hne
    have hhas : Has (ofList (s.frames.map Frame.signum)) f.signum := by simp [hf]
    rw [h0] at hhas
    exact not_has_zero hhas
  · intro h0
    rw [h0]
    rfl

end Handlers

end CrossShim.Signals
