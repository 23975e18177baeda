import CrossShim.Signals.Steps

/-!
# A handler from its call to its end

While the handler of a signal runs, the frame of its delivery stays under the frames of all that the handler sets off
(`Within`), whatever the handler does.  If it returns, the frame puts back the mask and the active signals.  If it
jumps to a buffer that was filled before the delivery, the mask comes back from the buffer, but the frame stays and
with it the active signal: the handler is not called again.
-/

namespace CrossShim.Signals

open Lib Mask

/-- The states of the runs from `s₁` in which more than `n` deliveries wait for their handlers all the time. -/
def Inside (n : ℕ) (s₁ t : State) : Prop :=
  (System.ofStep (· = s₁) State.step).Reach (fun t _ => n < t.frames.length) t ∧ n < t.frames.length

/-- How a handler that was called in `s` ends: with its return, after which no delivery is left but those of `s` (a
signal delivered once more calls the handler anew, and that has to end too), or with a `siglongjmp` to a buffer filled
with the mask when only the deliveries of `s` waited. -/
inductive Finishes (s t : State) : Event → State → Prop
  | ret {s'} (h : t.step .handlerReturn = some s') (hf : s'.frames = s.frames) : Finishes s t .handlerReturn s'
  | jump (env : Word) (value : ℤ) (henv : env ≠ 0) (hsaved : (t.bufs env).saved = true)
      (hdepth : (t.bufs env).depth ≤ s.frames.length) :
      Finishes s t (.call (.siglongjmp env value true)) (t.call (.siglongjmp env value true))

def RunsHandler (s s' : State) (sig : Signal) : Prop :=
  ∃ h, s'.calls = h :: s.calls ∧ h.signum = sig ∧ h.handler = (s.actions sig).handlerPtr

/-- The delivery of the signal that began in `s` is under way, below the deliveries `inner`. -/
structure Within (s t : State) (sig : Signal) (inner : List Frame) (f : Frame) : Prop where
  frames : t.frames = inner ++ f :: s.frames
  signum : f.signum = sig
  finalMask : f.finalMask = s.blocked

section Bracket

variable {s t t' s' : State} {sig : Signal} {inner : List Frame} {f : Frame}

lemma within_start {c : Call} (hd : Does s c t) (hf : t.frames = f :: s.frames) :
    Within s t f.signum [] f ∧ ¬ Has s.active f.signum := by
  have hlonger (h : t.frames = s.frames) : False := List.cons_ne_self _ _ (hf.symm.trans h)
  cases hd with
  | keep hk | pend _ hk => exact (hlonger hk.frames).elim
  | sets _ hset => exact (hlonger hset.frames).elim
  | start _ sig info b p after hstarts _ hd =>
    obtain ⟨rfl, -⟩ := List.cons.inj hf
    refine ⟨⟨rfl, rfl, ?_⟩, hstarts.2.1⟩
    obtain ⟨rfl, hrestore⟩ | ⟨-, hrestore⟩ := hd.mask
    · simp [Frame.finalMask, hrestore]
    · simp [Frame.finalMask, hrestore]

lemma Within.call {c : Call} (h : Within s t sig inner f) (hd : Does t c t') : ∃ inner', Within s t' sig inner' f := by
  cases hd with
  | keep hk | pend _ hk => exact ⟨inner, hk.frames.trans h.frames, h.signum, h.finalMask⟩
  | sets _ hset => exact ⟨inner, hset.frames.trans h.frames, h.signum, h.finalMask⟩
  | start => exact ⟨_ :: inner, congrArg (List.cons _) h.frames, h.signum, h.finalMask⟩

/-- A handler returns: one of those set off meanwhile, or the handler of the delivery itself. -/
lemma Within.handlerReturn {g : Frame} {rest : List Frame} (h : Within s t sig inner f) (hg : t.frames = g :: rest)
    (hr : Returns t g rest t') :
    (∃ inner' f', Within s t' sig inner' f') ∨ (t'.frames = s.frames ∧ t'.blocked = s.blocked) := by
  cases inner with
  | nil =>
    obtain ⟨rfl, rfl⟩ := List.cons.inj (hg.symm.trans h.frames)
    cases hr with
    | done p => exact .inr ⟨rfl, h.finalMask⟩
    | again => exact .inl ⟨[], _, rfl, h.signum, h.finalMask⟩
  | cons g' inner =>
    obtain ⟨rfl, rfl⟩ := List.cons.inj (hg.symm.trans h.frames)
    left
    cases hr with
    | done p => exact ⟨inner, f, rfl, h.signum, h.finalMask⟩
    | again => exact ⟨_ :: inner, f, rfl, h.signum, h.finalMask⟩

lemma Within.length_lt (h : Within s t sig inner f) : s.frames.length < t.frames.length := by
  rw [h.frames, List.length_append, List.length_cons]
  omega

lemma Within.step {e : Event} (h : Within s t sig inner f) (hs : t.step e = some t') :
    (∃ inner' f', Within s t' sig inner' f') ∨ (t'.frames = s.frames ∧ t'.blocked = s.blocked) := by
  cases e with
  | call c =>
    cases hs
    obtain ⟨inner', h'⟩ := h.call (call_does t c)
    exact .inl ⟨inner', f, h'⟩
  | handlerReturn =>
    obtain ⟨g, rest, hg, hr⟩ := handlerReturn_does hs
    exact h.handlerReturn hg hr

lemma Within.run {s₁ : State} (h : Within s s₁ sig inner f) (hok : FramesOk s₁) (hrun : Inside s.frames.length s₁ t) :
    FramesOk t ∧ ∃ inner' f', Within s t sig inner' f' := by
  have hinv : FramesOk t ∧ (s.frames.length < t.frames.length → ∃ inner' f', Within s t sig inner' f') := by
    refine System.Reach.invariant
      (I := fun t => FramesOk t ∧ (s.frames.length < t.frames.length → ∃ inner' f', Within s t sig inner' f'))
      (fun t ht => ?_) (fun t e t' ih hinside hs => ?_) hrun.1
    · subst ht
      exact ⟨hok, fun _ => ⟨inner, f, h⟩⟩
    · obtain ⟨inner', f', h'⟩ := ih.2 hinside
      refine ⟨ih.1.step hs, fun hlen => (h'.step hs).resolve_right fun hout => ?_⟩
      rw [hout.1] at hlen
      exact lt_irrefl _ hlen
  exact ⟨hinv.1, hinv.2 hrun.2⟩

lemma Within.has_active (h : Within s t sig inner f) (hok : FramesOk t) : Has t.active sig := by
  rw [hok.active, has_ofList, h.frames, ← h.signum]
  simp

end Bracket

section Raise

variable {s : State} {sig : Signal} {info : SignalInfo}

lemma ofNum_signum (sig : Signal) : Signal.ofNum ((sig : ℤ) + 1) = some sig := by
  have hlt := sig.isLt
  unfold Signal.ofNum
  rw [dif_pos (by omega)]
  exact congrArg some (Fin.ext (by simp))

lemma runsHandler_queue (hcaught : (s.actions sig).Caught) (hb : ¬ Has s.blocked sig) (ha : ¬ Has s.active sig)
    (hroom : ¬ s.Refused sig) : RunsHandler s (s.call (.queue ((sig : ℤ) + 1) info)) sig := by
  change RunsHandler s (s.queueGuestSignal ((sig : ℤ) + 1) info) sig
  have hroom' : ¬ ({ s with info := Function.update s.info sig info } : State).Refused sig := hroom
  unfold State.queueGuestSignal State.deliverGuestSignal
  rw [ofNum_signum]
  dsimp only
  rw [if_neg (not_or.2 ⟨hb, ha⟩), if_neg (not_not.2 hcaught), if_neg ha, if_neg hroom']
  exact ⟨_, rfl, rfl, rfl⟩

lemma not_runsHandler_queue (ha : Has s.active sig) : ¬ RunsHandler s (s.call (.queue ((sig : ℤ) + 1) info)) sig := by
  change ¬ RunsHandler s (s.queueGuestSignal ((sig : ℤ) + 1) info) sig
  unfold State.queueGuestSignal
  rw [ofNum_signum]
  dsimp only
  rw [if_pos (.inr ha)]
  rintro ⟨h, hcalls, -⟩
  exact List.cons_ne_self _ _ hcalls.symm

end Raise

/-- **When a handler has ended, the active signals and the mask are those before the delivery exactly if it has
returned; and exactly then a later raise of the signal, if it is caught and not blocked and there is stack for the call,
calls the handler.** -/
theorem handler_bracket_iff_returned {s t s' : State} {c : Call} {f : Frame} {e : Event} (hs : system.Reachable s)
    (hstart : (s.call c).frames = f :: s.frames) (hrun : Inside s.frames.length (s.call c) t)
    (hfin : Finishes s t e s') :
    ((s'.active = s.active ∧ s'.blocked = s.blocked) ↔ e = .handlerReturn) ∧
      ∀ info, (s'.actions f.signum).Caught → ¬ Has s'.blocked f.signum → ¬ s'.Refused f.signum →
        (RunsHandler s' (s'.call (.queue ((f.signum : ℤ) + 1) info)) f.signum ↔ e = .handlerReturn) := by
  have hok := framesOk_of_reach hs
  obtain ⟨hwithin, hinactive⟩ := within_start (call_does s c) hstart
  obtain ⟨hokt, inner, f', ht⟩ := hwithin.run (hok.call (call_does s c)) hrun
  cases hfin with
  | ret h hf =>
    have hactive : s'.active = s.active := by rw [(hokt.step h).active, hf, hok.active]
    have hblocked : s'.blocked = s.blocked := by
      obtain ⟨inner', f'', h'⟩ | hout := ht.step h
      · have hlt := h'.length_lt
        rw [hf] at hlt
        exact absurd hlt (lt_irrefl _)
      · exact hout.2
    refine ⟨iff_of_true ⟨hactive, hblocked⟩ rfl, fun info hcaught hb hroom => iff_of_true ?_ rfl⟩
    exact runsHandler_queue hcaught hb (hactive ▸ hinactive) hroom
  | jump env value =>
    -- The frame is still there, and its signal active.
    obtain ⟨inner', h'⟩ := ht.call (call_does t (.siglongjmp env value true))
    have hactive := h'.has_active (hokt.call (call_does t _))
    refine ⟨iff_of_false (fun h => hinactive (h.1 ▸ hactive)) (by simp), fun info _ _ _ => ?_⟩
    exact iff_of_false (not_runsHandler_queue hactive) (by simp)

/-- `SIGUSR1` with a handler that returns at once. -/
theorem handler_bracket_usr1 :
    let s := (State.init 1).call (.signal 10 0x5000)
    ∃ s', (s.call (.queue 10 {})).step .handlerReturn = some s' ∧ s'.active = s.active ∧ s'.blocked = s.blocked ∧
      RunsHandler s' (s'.call (.queue 10 {})) 9 := by
  intro s
  have hsignal : (State.init 1).step (.call (.signal 10 0x5000)) = some s := rfl
  have hret : (s.call (.queue 10 {})).step .handlerReturn =
      some (((s.call (.queue 10 {})).step .handlerReturn).get (by decide)) := (Option.some_get _).symm
  have hstart : (s.call (.queue 10 {})).frames = ⟨9, bit sigtimer, false, ⟨none, .ok⟩⟩ :: s.frames := by decide
  obtain ⟨hbracket, hagain⟩ := handler_bracket_iff_returned (System.Reachable.next (.init ⟨1, rfl⟩) hsignal) hstart
    ⟨.init rfl, by decide⟩ (.ret hret (by decide))
  obtain ⟨hactive, hblocked⟩ := hbracket.2 rfl
  exact ⟨_, hret, hactive, hblocked, (hagain {} (by decide) (by decide) (by decide)).2 rfl⟩

/-- The handler of `SIGUSR1` jumps back to the main program: the signal stays active, and the next raise only makes it
pending. -/
theorem siglongjmp_leaves_active :
    ∃ s, [Event.call (.signal 10 0x5000), .call (.sigsetjmp 0x8000 true), .call (.queue 10 {}),
        .call (.siglongjmp 0x8000 1 true), .call (.queue 10 {})].foldlM State.step (State.init 1) = some s ∧
      system.Reachable s ∧ Has s.active 9 ∧ ¬ Has s.blocked 9 ∧ Has s.pending 9 ∧ s.calls.length = 1 := by
  refine ⟨_, (Option.some_get (by decide)).symm, System.Reachable.foldlM (.init ⟨1, rfl⟩) (Option.some_get _).symm, ?_⟩
  decide

end CrossShim.Signals
