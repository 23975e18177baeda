import CrossShim.Signals.Steps

/-!
# Pending signals and the mask

Which runs keep the promise that outside handlers no caught signal is pending and unblocked (`Settled`): those in which
no call that sets the mask or an action, and no return from the last handler, lets a pending signal through.  Nothing is
delivered at these places but the own signal of the handler.

`SIGKILL` and `SIGSTOP` stay out of the mask as long as no handler of theirs is called: the mask of a handler is not
normalised after its own signal is added.
-/

namespace CrossShim.Signals

open Lib Mask State

/-! ### Pending signals -/

/-- Every caught signal that is pending is in the mask. -/
def Covers (s : State) (m : Word) : Prop := ∀ sig, (s.actions sig).Caught → Has s.pending sig → Has m sig

/-- Outside handlers, no caught signal is both pending and unblocked. -/
def Settled (s : State) : Prop := s.active = 0 → Covers s s.blocked

/-- Nothing pending is let through: outside handlers the mask that a call sets has every pending signal that the new
actions catch; the return from the last handler calls it once more, or the mask that it puts back has every caught
pending signal but the own signal of the handler, which is not pending any more if the handler was called under a mask
without it. -/
def Undisturbed (s : State) : Event → Prop
  | .call c => c.Sets = true → s.active = 0 →
    ∀ sig, (c.newActions s sig).Caught → Has s.pending sig → Has (c.newMask s) sig
  | .handlerReturn => ∀ f, s.frames = [f] → Redelivers s f [] ∨ ∀ sig, (s.actions sig).Caught → Has s.pending sig →
    sig = f.signum ∧ ¬ Has f.oldMask sig ∨ Has f.finalMask sig

section Pending

variable {s s' : State}

lemma Settled.of_has_active {sig : Signal} (h : Has s.active sig) : Settled s := by
  intro h0
  rw [h0] at h
  exact absurd h not_has_zero

lemma settled_callHandler (s : State) (sig : Signal) (after : After) : Settled (s.callHandler sig after) :=
  .of_has_active (show Has (s.active ||| bit sig) sig by simp)

lemma Covers.mono {m : Word} (h : Covers s m) (ha : s'.actions = s.actions)
    (hp : ∀ sig, (s.actions sig).Caught → Has s'.pending sig → Has s.pending sig) : Covers s' m := by
  intro sig hcaught hsig
  rw [ha] at hcaught
  exact h sig hcaught (hp sig hcaught hsig)

lemma Settled.call {c : Call} (h : Settled s) (hd : Does s c s') (hc : c.Sets = false) : Settled s' := by
  cases hd with
  | keep hk hb hp =>
    intro h0
    rw [hb]
    exact (h (hk.active ▸ h0)).mono hk.actions fun sig _ => hp sig
  | sets hc' => exact absurd hc' (by simp [hc])
  | pend sig hk hb hp hsig =>
    intro h0 sig' hcaught hsig'
    have h0' : s.active = 0 := hk.active ▸ h0
    rw [hb]
    rw [hp, has_or, has_bit] at hsig'
    obtain hold | rfl := hsig'
    · exact h h0' sig' (hk.actions ▸ hcaught) hold
    · refine hsig.resolve_right fun hactive => ?_
      rw [h0'] at hactive
      exact not_has_zero hactive
  | start => exact settled_callHandler _ _ _

lemma settled_return_iff {f : Frame} {rest : List Frame} (hok : FramesOk s) (hf : s.frames = f :: rest)
    (hr : Returns s f rest s') : Settled s' ↔ (rest = [] → Redelivers s f rest ∨ ∀ sig, (s.actions sig).Caught →
      Has s.pending sig → sig = f.signum ∧ ¬ Has f.oldMask sig ∨ Has f.finalMask sig) := by
  have hok' := hok.handlerReturn hf hr
  cases hr with
  | again h => exact iff_of_true (settled_callHandler _ _ _) fun _ => .inl h
  | done p hno hp =>
    unfold Settled
    rw [hok'.active_eq_zero]
    refine imp_congr_right fun _ => ?_
    rw [or_iff_right hno]
    -- Of what is caught and pending only the own signal can be gone.
    refine forall_congr' fun sig => imp_congr_right fun hcaught => ?_
    change Has p sig → _ ↔ _
    rw [hp sig hcaught, and_imp, ← or_iff_not_imp_left]
    rfl

lemma settled_step_iff {e : Event} (hok : FramesOk s) (h : Settled s) (hs : s.step e = some s') :
    Settled s' ↔ Undisturbed s e := by
  cases e with
  | call c =>
    cases hs
    have hd := call_does s c
    cases hc : c.Sets with
    | true =>
      have hset : SetBy s c (s.call c) := setBy_call hc
      unfold Settled Covers Undisturbed
      rw [hset.active, hset.blocked, hset.actions, hset.pending]
      exact ⟨fun h _ => h, fun h => h hc⟩
    | false => exact iff_of_true (h.call hd hc) fun hc' => absurd hc' (by simp [hc])
  | handlerReturn =>
    obtain ⟨f, rest, hf, hr⟩ := handlerReturn_does hs
    rw [settled_return_iff hok hf hr]
    constructor
    · intro h g hg
      obtain ⟨rfl, rfl⟩ := List.cons.inj (hf.symm.trans hg)
      exact h rfl
    · rintro h rfl
      exact h f hf

lemma settled_of_reach (h : system.Reach Undisturbed s) : Settled s := by
  have hboth : FramesOk s ∧ Settled s := by
    refine System.Reach.invariant (I := fun s => FramesOk s ∧ Settled s) (fun s hs => ?_)
      (fun s e s' h hc hs => ⟨h.1.step hs, (settled_step_iff h.1 h.2 hs).2 hc⟩) h
    obtain ⟨depth, rfl⟩ := hs
    exact ⟨⟨rfl, List.nodup_nil⟩, fun _ _ _ h => absurd h not_has_zero⟩
  exact hboth.2

end Pending

/-- **Outside handlers no caught signal is pending and unblocked, as long as no step lets a pending signal through; the
first that does breaks it.** -/
theorem settled_iff_undisturbed {s : State} (h : system.Reach Undisturbed s) :
    Settled s ∧ ∀ e s', s.step e = some s' → (Settled s' ↔ Undisturbed s e) :=
  ⟨settled_of_reach h, fun _ _ hs => settled_step_iff (framesOk_of_reach h) (settled_of_reach h) hs⟩

/-- A caught signal is blocked and raised: it is pending, and the call that unblocks it leaves it so. -/
theorem settled_iff_undisturbed_blocked :
    let s := (((init 1).call (.signal 10 0x5000)).call (.sigprocmask .block (some (bit 9)))).call (.queue 10 {})
    Settled s ∧ s.active = 0 ∧ (s.actions 9).Caught ∧ Has s.pending 9 ∧
      ¬ Settled (s.call (.sigprocmask .unblock (some (bit 9)))) := by
  intro s
  have hnone (t : State) (c : Call) (h0 : t.pending = 0) : Undisturbed t (.call c) :=
    fun _ _ _ _ h => absurd (h0 ▸ h) not_has_zero
  have hreach : system.Reach Undisturbed s :=
    .step (.step (.step (.init ⟨1, rfl⟩) (hnone _ _ rfl) rfl) (hnone _ _ rfl) rfl) (hnone _ _ rfl) rfl
  obtain ⟨hsettled, hnext⟩ := settled_iff_undisturbed hreach
  have hlets : ¬ Undisturbed s (.call (.sigprocmask .unblock (some (bit 9)))) :=
    fun h => absurd (h rfl (by decide) 9 (by decide) (by decide)) (by decide)
  exact ⟨hsettled, by decide, by decide, by decide, mt (hnext _ _ rfl).1 hlets⟩

/-- `SIGUSR1` with a handler is blocked, raised and unblocked: it stays pending. -/
theorem unblocked_stays_pending :
    ∃ s, [Event.call (.signal 10 0x5000), .call (.sigprocmask .block (some (bit 9))), .call (.queue 10 {}),
        .call (.sigprocmask .unblock (some (bit 9)))].foldlM step (init 1) = some s ∧
      system.Reachable s ∧ s.active = 0 ∧ (s.actions 9).Caught ∧ Has s.pending 9 ∧ ¬ Has s.blocked 9 ∧
      s.calls = [] := by
  refine ⟨_, (Option.some_get (by decide)).symm, System.Reachable.foldlM (.init ⟨1, rfl⟩) (Option.some_get _).symm, ?_⟩
  decide

/-! ### `SIGKILL` and `SIGSTOP` -/

/-- Neither `SIGKILL` nor `SIGSTOP` is blocked. -/
def MaskOk (m : Word) : Prop := ¬ Has m sigkill ∧ ¬ Has m sigstop

instance (m : Word) : Decidable (MaskOk m) := inferInstanceAs (Decidable (_ ∧ _))

/-- The signal is `SIGKILL` or `SIGSTOP`, and its handler blocks it meanwhile. -/
def State.BlocksOwn (s : State) (sig : Signal) : Prop := ¬ sig.Ignorable ∧ ¬ (s.actions sig).HasFlag saNodefer

/-- The step calls a handler of `SIGKILL` or `SIGSTOP` whose own signal is blocked meanwhile. -/
def StartsNonblockable (s : State) : Event → Prop
  | .call c => ∃ sig ∈ c.delivers s, s.Starts sig ∧ s.BlocksOwn sig
  | .handlerReturn => ∃ f rest, s.frames = f :: rest ∧ Redelivers s f rest ∧ s.BlocksOwn f.signum

/-- The mask, and the masks that will be put back. -/
structure MasksOk (s : State) : Prop where
  blocked : MaskOk s.blocked
  frames : ∀ f ∈ s.frames, MaskOk f.oldMask ∧ ∀ m ∈ f.after.restore, MaskOk m

section Nonblockable

variable {s s' : State}

lemma maskOk_iff {m : Word} : MaskOk m ↔ ∀ sig : Signal, Has m sig → sig.Ignorable := by
  constructor
  · intro h sig hsig
    constructor
    · rintro rfl
      exact h.1 hsig
    · rintro rfl
      exact h.2 hsig
  · intro h
    exact ⟨fun hk => (h _ hk).1 rfl, fun hs => (h _ hs).2 rfl⟩

lemma maskOk_normalizeProcessMask (m : Word) : MaskOk (normalizeProcessMask m) :=
  maskOk_iff.2 fun _ h => (has_normalizeProcessMask.1 h).2.2

lemma maskOk_handlerMask_iff (h : MaskOk s.blocked) (sig : Signal) :
    MaskOk (s.handlerMask sig) ↔ sig.Ignorable ∨ (s.actions sig).HasFlag saNodefer := by
  have hmask (sig' : Signal) (hsig : Has (s.blocked ||| normalizeHandlerMask (s.actions sig).maskBits) sig') :
      sig'.Ignorable := by
    obtain hold | hnew := has_or.1 hsig
    · exact maskOk_iff.1 h sig' hold
    · exact (has_normalizeHandlerMask.1 hnew).2
  unfold handlerMask
  dsimp only
  split
  case isTrue hflag => exact iff_of_true (maskOk_iff.2 hmask) (.inr hflag)
  case isFalse hflag =>
    rw [or_iff_left hflag, maskOk_iff]
    constructor
    · exact fun h => h sig (by simp)
    · intro hsig sig' h'
      obtain hold | hown := has_or.1 h'
      · exact hmask sig' hold
      · rw [has_bit.1 hown]
        exact hsig

lemma masksOk_callHandler {e : Event} {d : State} {sig : Signal} {after : After} (hd : MasksOk d)
    (hafter : ∀ m ∈ after.restore, MaskOk m) (hstarts : StartsNonblockable s e ↔ d.BlocksOwn sig) :
    (MaskOk (d.callHandler sig after).blocked ↔ ¬ StartsNonblockable s e) ∧
      (MaskOk (d.callHandler sig after).blocked → MasksOk (d.callHandler sig after)) := by
  refine ⟨?_, fun h => ⟨h, List.forall_mem_cons.2 ⟨⟨hd.blocked, hafter⟩, hd.frames⟩⟩⟩
  rw [hstarts, BlocksOwn, ← not_or, not_not]
  exact maskOk_handlerMask_iff hd.blocked sig

lemma masksOk_step {e : Event} (h : MasksOk s) (hs : s.step e = some s') :
    (MaskOk s'.blocked ↔ ¬ StartsNonblockable s e) ∧ (MaskOk s'.blocked → MasksOk s') := by
  have hquiet (hb : MaskOk s'.blocked) (hno : ¬ StartsNonblockable s e) (hf : ∀ f ∈ s'.frames, f ∈ s.frames) :
      (MaskOk s'.blocked ↔ ¬ StartsNonblockable s e) ∧ (MaskOk s'.blocked → MasksOk s') :=
    ⟨iff_of_true hb hno, fun _ => ⟨hb, fun f hmem => h.frames f (hf f hmem)⟩⟩
  cases e with
  | call c =>
    have hd : Does s c s' := Option.some.inj hs ▸ call_does s c
    cases hd with
    | keep hk hb _ hq | pend _ hk hb _ _ hq =>
      exact hquiet (hb ▸ h.blocked) (fun ⟨sig, hsig, hstarts, _⟩ => hq sig hsig hstarts) fun f hf => hk.frames ▸ hf
    | sets hc hset =>
      have hno : c.delivers s = none := by cases c <;> first | rfl | cases hc
      refine hquiet ?_ (by simp [StartsNonblockable, hno]) fun f hmem => hset.frames ▸ hmem
      rw [hset.blocked, Call.newMask]
      cases c.setMask s with
      | none => exact h.blocked
      | some m => exact maskOk_normalizeProcessMask m
    | start _ sig info b p after hstarts hdel hd =>
      have hown : StartsNonblockable s (.call c) ↔ s.BlocksOwn sig := by simp [StartsNonblockable, hdel, hstarts]
      obtain ⟨rfl, hrestore⟩ | ⟨⟨m, rfl⟩, hrestore⟩ := hd.mask
      · exact masksOk_callHandler ⟨h.blocked, h.frames⟩ (by simp [hrestore]) hown
      · exact masksOk_callHandler ⟨maskOk_normalizeProcessMask m, h.frames⟩ (by simp [hrestore, h.blocked]) hown
  | handlerReturn =>
    obtain ⟨f, rest, hf, hr⟩ := handlerReturn_does hs
    have hfok := h.frames f (by simp [hf])
    have hrest (g : Frame) (hg : g ∈ rest) : g ∈ s.frames := by simp [hf, hg]
    cases hr with
    | done p hno =>
      refine hquiet ?_ (by simp [StartsNonblockable, hf, hno]) hrest
      change MaskOk (f.after.restore.getD f.oldMask)
      cases hrestore : f.after.restore with
      | none => exact hfok.1
      | some m => exact hfok.2 m hrestore
    | again hre =>
      exact masksOk_callHandler ⟨hfok.1, fun g hg => h.frames g (hrest g hg)⟩ hfok.2
        (show _ ↔ s.BlocksOwn f.signum by simp [StartsNonblockable, hf, hre])

lemma masksOk_of_reach (h : system.Reach (fun s e => ¬ StartsNonblockable s e) s) : MasksOk s := by
  refine System.Reach.invariant (fun s hs => ?_) (fun s e s' h hc hs => ?_) h
  · obtain ⟨depth, rfl⟩ := hs
    exact ⟨show MaskOk (bit sigtimer) by decide, nofun⟩
  · have hstep := masksOk_step h hs
    exact hstep.2 (hstep.1.2 hc)

end Nonblockable

/-- **`SIGKILL` and `SIGSTOP` are not blocked as long as no handler of theirs is called without `SA_NODEFER`; the first
such call blocks the signal.** -/
theorem nonblockable_iff_not_started {s : State} (h : system.Reach (fun s e => ¬ StartsNonblockable s e) s) :
    MaskOk s.blocked ∧ ∀ e s', s.step e = some s' → (MaskOk s'.blocked ↔ ¬ StartsNonblockable s e) :=
  ⟨(masksOk_of_reach h).blocked, fun _ _ hs => (masksOk_step (masksOk_of_reach h) hs).1⟩

/-- A process that blocks all it can. -/
theorem nonblockable_iff_not_started_block_all :
    MaskOk ((init 1).call (.sigprocmask .setmask (some (-1)))).blocked ∧
      Has ((init 1).call (.sigprocmask .setmask (some (-1)))).blocked 9 := by
  refine ⟨?_, by decide⟩
  have hstep : (init 1).step (.call (.sigprocmask .setmask (some (-1)))) =
      some ((init 1).call (.sigprocmask .setmask (some (-1)))) := rfl
  exact (nonblockable_iff_not_started (.step (.init ⟨1, rfl⟩) (by simp [StartsNonblockable, Call.delivers]) hstep)).1

/-- `signal(SIGKILL, handler)` is accepted, and `raise(SIGKILL)` blocks the signal while the handler runs. -/
theorem sigkill_blocked_in_handler :
    ∃ s, [Event.call (.signal 9 0x5000), .call (.queue 9 {})].foldlM step (init 1) = some s ∧
      system.Reachable s ∧ Has s.blocked sigkill := by
  have hrun : [Event.call (.signal 9 0x5000), .call (.queue 9 {})].foldlM step (init 1) = some _ := rfl
  refine ⟨_, hrun, System.Reachable.foldlM (.init ⟨1, rfl⟩) hrun, ?_⟩
  decide

end CrossShim.Signals
