import CrossShim.Calls.SafeStack

/-!
# The run loop of a guest call

`call_function_internal` runs guest code in the loop of `Emulator::start` until the guest returns through the
call-return trampoline.  Handlers that the guest calls on the way make guest calls of their own, on the same host
thread and the same thread-local variables.  A `Trace` is everything that happens from the first
`libafl_qemu_run` of a call until its loop is left, with the nested calls in it.

A nested call leaves `tl_running` and `call_depth` as they were exactly when it is a safe call in which no C++
exception is thrown, or when it is refused before its loop starts (`callFunctionInternal_keeps_iff`).
`last_call_succeeded` is only ever cleared, and only by an exception (`callFunctions_honest_iff`).
-/

namespace CrossShim.Calls

open Lib Option

/-! ### One turn of the loop -/

inductive Ending where
  | noCpu
  | stackExhausted
  | cleanReturn
  | exited
  | endAddress
  | incomplete
  | exception
  deriving DecidableEq

/-- The run loop was left through the call-return trampoline or at the end address. -/
def Ending.isClean : Ending → Bool
  | .cleanReturn => true
  | .endAddress => true
  | _ => false

/-- `tl_call_return_hit`, with what has set it: the trampoline, or `SYS_exit` on a worker. -/
inductive Hit where
  | no
  | trampoline
  | exit
  deriving DecidableEq

def Hit.ending : Hit → Option Ending
  | .no => none
  | .trampoline => some .cleanReturn
  | .exit => some .exited

/-- What the loop finds when `libafl_qemu_run` returns. -/
structure Stop where
  sameCpu : Bool := true
  pc : Word
  registered : Bool := false
  failed : Bool := false
  crash : Bool := false
  deriving DecidableEq

/-- What the loop does next: leave, run again, or call the handler. -/
inductive Verdict where
  | leave (ending : Ending)
  | again
  | handle
  deriving DecidableEq

/-- The checks of the loop body after the one for the trampoline, in their order. -/
def Stop.verdict (endAddress : Word) (st : Stop) : Verdict :=
  if !st.sameCpu then .again
  else if st.pc = 0 then .leave .incomplete
  else if endAddress ≠ 0 ∧ st.pc = endAddress then .leave .endAddress
  else if st.registered then .handle
  else if st.pc ≥ hleBase ∧ st.pc < hleBase + hleSize then .again
  else if st.failed then
    if st.crash then .leave .incomplete
    else if st.pc ≥ codeBase ∧ st.pc < codeBase + codeSize then .again
    else if st.pc ≥ 0x7F800000 ∧ st.pc < 0x80000000 then .again
    else .leave .incomplete
  else .again

/-- The loop ends when the handler has left the PC where it was and there is no return address. -/
def Stop.afterHandler (st : Stop) (newPc lr : Word) : Verdict :=
  if newPc = st.pc ∧ lr = 0 then .leave .incomplete else .again

/-! ### Calls -/

/-- The entry points of `call_function`, `call_function_safe` with this many arguments, and
`call_function_safe_on_stack`. -/
inductive CallKind where
  | plain
  | safe (count : ℕ)
  | safeOnStack
  deriving DecidableEq

def CallKind.isSafe : CallKind → Bool
  | .plain => false
  | _ => true

/-- A guest call, with what its set-up finds. -/
structure Request where
  kind : CallKind
  cpu : Bool := true
  setupThrows : Bool := false
  startCpu : Bool := true
  deriving DecidableEq

structure ThreadState where
  running : Bool := false
  callReturnHit : Hit := .no
  callDepth : ℕ := 0
  lastCallSucceeded : Bool := true
  deriving DecidableEq

open ThreadState

/-- There is room on the safe-call stack for a call at the next depth. -/
def CallKind.fits (base : Word) (callDepth : ℕ) : CallKind → Bool
  | .safe count => (safeLayout base (callDepth + 1) count).isSome
  | _ => true

/-- Why a call does not get as far as `start`, if it does not. -/
def Request.refusal (req : Request) (base : Word) (callDepth : ℕ) : Option Ending :=
  if req.cpu = false then some .noCpu
  else if req.setupThrows = true then some .exception
  else if req.kind.fits base callDepth = false then some .stackExhausted
  else none

/-- What happens while a call is in its loop, until the loop is left. -/
inductive Trace where
  /-- The loop is left. -/
  | done
  /-- A C++ exception leaves the loop. -/
  | throws
  /-- `Emulator::stop`. -/
  | stop (rest : Trace)
  /-- The guest reaches the call-return trampoline. -/
  | callReturn (rest : Trace)
  /-- `SYS_exit`. -/
  | exit (rest : Trace)
  /-- A handler makes a guest call. -/
  | call (req : Request) (inner rest : Trace)
  /-- `libafl_qemu_run` returns. -/
  | returned (st : Stop) (rest : Trace)
  /-- The handler at the PC returns. -/
  | handled (newPc lr : Word) (rest : Trace)
  deriving DecidableEq

open Trace

def Trace.isDone : Trace → Bool
  | .done => true
  | _ => false

namespace ThreadState

/-- The exception firewall of `call_function_internal`. -/
def caught (t : ThreadState) : ThreadState := { t with lastCallSucceeded := false }

def refused (t : ThreadState) : Ending → ThreadState
  | .exception => t.caught
  | _ => t

/-- `call_depth = next_call_depth`, and the first assignment of `start`. -/
def entered (t : ThreadState) : ThreadState := { t with callDepth := t.callDepth + 1, running := true }

/-- What `start` and `call_function_internal_impl` do after the loop, for a call that was made in the state `saved`. -/
def left (t saved : ThreadState) (kind : CallKind) : ThreadState :=
  { t with
    running := if kind.isSafe then saved.running else false
    callDepth := t.callDepth - 1 }

def ended (t saved : ThreadState) (kind : CallKind) : Ending → ThreadState
  | .exception => t.caught
  | _ => t.left saved kind

end ThreadState

/-- `call_function_internal`; `loop` is the run loop on the trace of the call. -/
def callFunctionInternal (base : Word) (req : Request) (noTrace : Bool)
    (loop : ThreadState → Option (ThreadState × Ending)) (t : ThreadState) : Option (ThreadState × Ending) :=
  match req.refusal base t.callDepth with
  | some ending => if noTrace then some (t.refused ending, ending) else none
  | none =>
    if req.startCpu then (loop t.entered).map fun r => (r.1.ended t req.kind r.2, r.2)
    else if noTrace then some (t.entered.left t req.kind, .noCpu) else none

/-- Where the thread is: in `libafl_qemu_run`, or in the handler at the PC of a stop. -/
inductive Phase where
  | running
  | handling (st : Stop)

namespace Trace

/-- The loop is left, so nothing more happens in it. -/
def leave (rest : Trace) (t : ThreadState) (ending : Ending) : Option (ThreadState × Ending) :=
  if rest.isDone then some (t, ending) else none

/-- **The run loop.**  There is no result when the trace is not one of a loop that was left. -/
def loop (base : Word) : Trace → Phase → ThreadState → Option (ThreadState × Ending)
  | .done, _, _ => none
  | .throws, _, t => some (t, .exception)
  | .stop rest, p, t => rest.loop base p { t with running := false }
  | .callReturn rest, .running, t => rest.loop base .running { t with callReturnHit := .trampoline }
  -- without `tl_running` the host thread ends, and the call never does
  | .exit rest, .running, t => if t.running then rest.loop base .running { t with callReturnHit := .exit } else none
  | .callReturn _, .handling _, _ | .exit _, .handling _, _ => none
  | .call req inner rest, p, t =>
    (callFunctionInternal base req inner.isDone (inner.loop base .running) t).bind fun r => rest.loop base p r.1
  | .returned st rest, .running, t =>
    match t.callReturnHit.ending with
    | some ending => rest.leave { t with callReturnHit := .no } ending
    | none =>
      match st.verdict callReturnStub with
      | .leave ending => rest.leave t ending
      | .handle => rest.loop base (.handling st) t
      | .again => if t.running then rest.loop base .running t else rest.leave t .incomplete
  | .returned _ _, .handling _, _ => none
  | .handled newPc lr rest, .handling st, t =>
    match st.afterHandler newPc lr with
    | .leave ending => rest.leave t ending
    | _ => if t.running then rest.loop base .running t else rest.leave t .incomplete
  | .handled _ _ _, .running, _ => none

end Trace

def callFunction (base : Word) (req : Request) (inner : Trace) (t : ThreadState) : Option (ThreadState × Ending) :=
  callFunctionInternal base req inner.isDone (inner.loop base .running) t

/-- `call_function` calls one after the other on one thread, each with how it ends and what `last_call_succeeded` is
after it. -/
def callFunctions (base : Word) : List (Request × Trace) → ThreadState → Option (List (Ending × Bool))
  | [], _ => some []
  | (req, inner) :: calls, t =>
    (callFunction base req inner t).bind fun r =>
      (callFunctions base calls r.1).map fun results => (r.2, r.1.lastCallSucceeded) :: results

/-! ### What a trace says -/

def Stop.atEnd (st : Stop) : Bool := st.sameCpu && decide (st.pc = callReturnStub)

namespace Trace

/-- How many calls of a trace end by an exception that leaves their loop, this one included. -/
def throwCount : Trace → ℕ
  | .done => 0
  | .throws => 1
  | .stop rest => rest.throwCount
  | .callReturn rest | .exit rest => rest.throwCount
  | .call _ inner rest => inner.throwCount + rest.throwCount
  | .returned _ rest => rest.throwCount
  | .handled _ _ rest => rest.throwCount

/-- No exception is thrown in a call: not in its set-up, nor in its loop. -/
def noThrow : Trace → Bool
  | .done => true
  | .throws => false
  | .stop rest => rest.noThrow
  | .callReturn rest | .exit rest => rest.noThrow
  | .call req inner rest => (!req.cpu || !req.setupThrows) && inner.noThrow && rest.noThrow
  | .returned _ rest => rest.noThrow
  | .handled _ _ rest => rest.noThrow

/-- What `tl_call_return_hit` is after the trace. -/
def hit : Trace → Hit → Hit
  | .done, h => h
  | .throws, h => h
  | .stop rest, h => rest.hit h
  | .callReturn rest, _ => rest.hit .trampoline
  | .exit rest, _ => rest.hit .exit
  | .call _ inner rest, h => rest.hit (inner.hit h)
  | .returned _ rest, _ => rest.hit .no
  | .handled _ _ rest, h => rest.hit h

/-- The last thing in the loop is a return through the trampoline or at the end address. -/
def returns : Trace → Hit → Bool
  | .done, _ => false
  | .throws, _ => false
  | .stop rest, h => rest.returns h
  | .callReturn rest, _ => rest.returns .trampoline
  | .exit rest, _ => rest.returns .exit
  | .call _ inner rest, h => rest.returns (inner.hit h)
  | .returned st rest, h =>
    if rest.isDone then (h.ending.map Ending.isClean).getD st.atEnd else rest.returns .no
  | .handled _ _ rest, h => rest.returns h

end Trace

section Loop

variable {base newPc lr : Word} {req : Request} {t t' : ThreadState} {e e' : Ending} {st : Stop} {rest inner : Trace}
  {loop : ThreadState → Option (ThreadState × Ending)}

lemma Trace.isDone_iff {tr : Trace} : tr.isDone = true ↔ tr = .done := by
  cases tr <;> simp [isDone]

lemma Trace.leave_eq_some (h : rest.leave t e = some (t', e')) : rest = .done ∧ t' = t ∧ e' = e := by
  obtain ⟨hd, h⟩ := ite_none_right_eq_some.1 h
  cases h
  exact ⟨isDone_iff.1 hd, rfl, rfl⟩

lemma callFunctionInternal_cases {noTrace : Bool} (h : callFunctionInternal base req noTrace loop t = some (t', e)) :
    (req.refusal base t.callDepth = some e ∧ noTrace = true ∧ t' = t.refused e) ∨
      req.refusal base t.callDepth = none ∧
        ((noTrace = true ∧ e = .noCpu ∧ t' = t.entered.left t req.kind) ∨
          ∃ t₁, loop t.entered = some (t₁, e) ∧ t' = t₁.ended t req.kind e) := by
  unfold callFunctionInternal at h
  cases hr : req.refusal base t.callDepth with
  | some ending =>
    rw [hr] at h
    obtain ⟨hn, h⟩ := ite_none_right_eq_some.1 h
    cases h
    exact .inl ⟨rfl, hn, rfl⟩
  | none =>
    rw [hr] at h
    refine .inr ⟨rfl, ?_⟩
    cases hs : req.startCpu with
    | true =>
      simp only [hs, if_true] at h
      obtain ⟨⟨t₁, e₁⟩, hl, heq⟩ := map_eq_some_iff.1 h
      cases heq
      exact .inr ⟨t₁, hl, rfl⟩
    | false =>
      simp only [hs, Bool.false_eq_true, if_false] at h
      obtain ⟨hn, h⟩ := ite_none_right_eq_some.1 h
      cases h
      exact .inl ⟨hn, rfl, rfl⟩

lemma refusal_exception (h : req.refusal base t.callDepth = some e) :
    e.isClean = false ∧ (e = .exception ↔ (!req.cpu || !req.setupThrows) = false) := by
  unfold Request.refusal at h
  split_ifs at h with hc hs hf <;> cases h
  · simp [Ending.isClean, hc]
  · simp [Ending.isClean, hc, hs]
  · simp [Ending.isClean, hs]

lemma no_setupThrows (h : req.refusal base t.callDepth = none) : (!req.cpu || !req.setupThrows) = true := by
  unfold Request.refusal at h
  split_ifs at h with hc hs hf
  simp [hs]

lemma Stop.verdict_of_atEnd (h : st.atEnd = true) : st.verdict callReturnStub = .leave .endAddress := by
  unfold Stop.atEnd at h
  rw [Bool.and_eq_true, decide_eq_true_eq] at h
  unfold Stop.verdict
  rw [h.1, h.2, if_neg (by decide), if_neg (by decide), if_pos ⟨by decide, rfl⟩]

lemma Stop.verdict_of_not_atEnd (h : st.atEnd = false) (hv : st.verdict callReturnStub = .leave e) :
    e = .incomplete := by
  unfold Stop.verdict at hv
  unfold Stop.atEnd at h
  split_ifs at hv with hcpu h0 hend <;> cases hv
  · rfl
  · rw [hend.2, decide_eq_true rfl, Bool.and_true] at h
    rw [h] at hcpu
    exact absurd rfl hcpu
  · rfl
  · rfl

lemma Stop.afterHandler_leave (h : st.afterHandler newPc lr = .leave e) : e = .incomplete := by
  unfold Stop.afterHandler at h
  split_ifs at h
  cases h
  rfl

/-- What the loop does to the state, from what happens in it. -/
structure Trace.Spec (tr : Trace) (t t' : ThreadState) (e : Ending) : Prop where
  depth : t'.callDepth + (if e = .exception then 1 else 0) = t.callDepth + tr.throwCount
  thrown : e = .exception → 0 < tr.throwCount
  hit : t'.callReturnHit = tr.hit t.callReturnHit
  clean : e.isClean = tr.returns t.callReturnHit
  succeeded : (e = .exception ∧ tr.noThrow = false) ∨
    (e ≠ .exception ∧ t'.lastCallSucceeded = (t.lastCallSucceeded && tr.noThrow))

/-- The loop is left at the end of the trace, without a clean return or an exception. -/
lemma Trace.Spec.of_incomplete (h : rest.leave t .incomplete = some (t', e)) : rest.Spec t t' e := by
  obtain ⟨rfl, rfl, rfl⟩ := leave_eq_some h
  exact ⟨rfl, nofun, rfl, rfl, .inr ⟨by simp, by simp [noThrow]⟩⟩

lemma Trace.again_spec (ih : ∀ t' e, rest.loop base .running t = some (t', e) → rest.Spec t t' e)
    (h : (if t.running then rest.loop base .running t else rest.leave t .incomplete) = some (t', e)) :
    rest.Spec t t' e := by
  split_ifs at h
  · exact ih t' e h
  · exact Spec.of_incomplete h

lemma Trace.loop_not_done {p : Phase} {r : ThreadState × Ending} (h : rest.loop base p t = some r) :
    rest.isDone = false := by
  cases rest <;> first | rfl | cases h

lemma Trace.Spec.of_returned (hs : rest.Spec t t' e) (hh : t.callReturnHit = .no) (hd : rest.isDone = false) :
    Spec (.returned st rest) t t' e := by
  obtain ⟨hdepth, hth, hhit, hclean, hsucc⟩ := hs
  rw [hh] at hhit hclean
  refine ⟨hdepth, hth, hhit, ?_, hsucc⟩
  rw [returns, hd]
  exact hclean

lemma Trace.Spec.of_last (hh : t.callReturnHit = .no) (he : e ≠ .exception) (hclean : e.isClean = st.atEnd) :
    Spec (.returned st .done) t t e := by
  refine ⟨by rw [if_neg he]; rfl, fun h => absurd h he, hh, ?_, .inr ⟨he, (Bool.and_true _).symm⟩⟩
  rw [returns, hh, hclean]
  rfl

lemma callFunctionInternal_spec (hloop : ∀ t₁ e, loop t.entered = some (t₁, e) → inner.Spec t.entered t₁ e)
    (h : callFunctionInternal base req inner.isDone loop t = some (t', e)) :
    t'.callDepth = t.callDepth + inner.throwCount ∧ t'.callReturnHit = inner.hit t.callReturnHit ∧
      e.isClean = inner.returns t.callReturnHit ∧
      t'.lastCallSucceeded = (t.lastCallSucceeded && ((!req.cpu || !req.setupThrows) && inner.noThrow)) := by
  rcases callFunctionInternal_cases h with ⟨hr, hd, rfl⟩ | ⟨hr, ⟨hd, rfl, rfl⟩ | ⟨t₁, hl, rfl⟩⟩
  · obtain ⟨hclean, hex⟩ := refusal_exception hr
    rw [isDone_iff.1 hd]
    by_cases he : e = .exception
    · rw [hex.1 he]
      subst he
      exact ⟨rfl, rfl, hclean, by simp [refused, caught]⟩
    · have htrue : (!req.cpu || !req.setupThrows) = true := by
        rw [← Bool.not_eq_false, ← hex]
        exact he
      rw [htrue]
      have hsame : t.refused e = t := by cases e <;> first | rfl | exact absurd rfl he
      rw [hsame]
      exact ⟨rfl, rfl, hclean, by simp [noThrow]⟩
  · rw [isDone_iff.1 hd, no_setupThrows hr]
    exact ⟨rfl, rfl, rfl, by simp [left, entered, noThrow]⟩
  · obtain ⟨hdepth, -, hhit, hclean, hsucc⟩ := hloop t₁ e hl
    rw [no_setupThrows hr, Bool.true_and]
    rcases hsucc with ⟨rfl, hth⟩ | ⟨he, hsucc⟩
    · rw [hth]
      refine ⟨?_, hhit, hclean, by simp [ended, caught]⟩
      simp only [if_true, entered] at hdepth
      simp only [ended, caught]
      omega
    · have hleft : t₁.ended t req.kind e = t₁.left t req.kind := by cases e <;> first | rfl | exact absurd rfl he
      rw [hleft]
      refine ⟨?_, hhit, hclean, hsucc⟩
      rw [if_neg he] at hdepth
      simp only [entered] at hdepth
      simp only [left]
      omega

lemma Trace.Spec.of_call {t₁ : ThreadState} (hs : rest.Spec t₁ t' e)
    (hdepth₁ : t₁.callDepth = t.callDepth + inner.throwCount) (hhit₁ : t₁.callReturnHit = inner.hit t.callReturnHit)
    (hsucc₁ : t₁.lastCallSucceeded = (t.lastCallSucceeded && ((!req.cpu || !req.setupThrows) && inner.noThrow))) :
    Spec (.call req inner rest) t t' e := by
  obtain ⟨hdepth, hth, hhit, hclean, hsucc⟩ := hs
  refine ⟨?_, fun he => Nat.add_pos_right _ (hth he), ?_, ?_, ?_⟩
  · simp only [throwCount]
    omega
  · simp only [Trace.hit]
    rw [hhit, hhit₁]
  · simp only [returns]
    rw [hclean, hhit₁]
  · simp only [noThrow]
    rcases hsucc with ⟨he, hth⟩ | ⟨he, hsucc⟩
    · exact .inl ⟨he, by rw [hth, Bool.and_false]⟩
    · refine .inr ⟨he, ?_⟩
      rw [hsucc, hsucc₁, Bool.and_assoc]

lemma Trace.Spec.of_verdict (hh : t.callReturnHit = .no) (hv : st.verdict callReturnStub = .leave e) :
    Spec (.returned st .done) t t e := by
  cases hend : st.atEnd with
  | true =>
    rw [Stop.verdict_of_atEnd hend] at hv
    cases hv
    exact of_last hh (by simp) hend.symm
  | false =>
    cases Stop.verdict_of_not_atEnd hend hv
    exact of_last hh (by simp) hend.symm

/-- `libafl_qemu_run` has returned, and the loop runs on or is left because it was stopped. -/
lemma Trace.Spec.of_again (ih : ∀ t' e, rest.loop base .running t = some (t', e) → rest.Spec t t' e)
    (hh : t.callReturnHit = .no) (hv : st.verdict callReturnStub = .again)
    (h : (if t.running then rest.loop base .running t else rest.leave t .incomplete) = some (t', e)) :
    Spec (.returned st rest) t t' e := by
  have hend : st.atEnd = false := by
    by_contra hne
    rw [Stop.verdict_of_atEnd (by simpa using hne)] at hv
    cases hv
  by_cases hd : rest.isDone = true
  · obtain rfl := isDone_iff.1 hd
    split_ifs at h
    · cases h
    · obtain ⟨-, rfl, rfl⟩ := leave_eq_some h
      exact of_last hh (by simp) hend.symm
  · exact (again_spec ih h).of_returned hh (by simpa using hd)

lemma Trace.returned_spec (ih : ∀ {p t' e}, rest.loop base p t = some (t', e) → rest.Spec t t' e)
    (h : (returned st rest).loop base .running t = some (t', e)) : Spec (.returned st rest) t t' e := by
  cases hh : t.callReturnHit with
  | trampoline | exit =>
    simp only [loop, hh, Hit.ending] at h
    obtain ⟨rfl, rfl, rfl⟩ := leave_eq_some h
    refine ⟨rfl, nofun, rfl, ?_, .inr ⟨by simp, by simp [noThrow]⟩⟩
    rw [hh]
    rfl
  | no =>
    simp only [loop, hh, Hit.ending] at h
    cases hv : st.verdict callReturnStub with
    | leave ending =>
      rw [hv] at h
      obtain ⟨rfl, rfl, rfl⟩ := leave_eq_some h
      exact Spec.of_verdict hh hv
    | handle =>
      rw [hv] at h
      exact (ih h).of_returned hh (loop_not_done h)
    | again =>
      rw [hv] at h
      exact Spec.of_again (fun _ _ h => ih h) hh hv h

lemma Trace.handled_spec (ih : ∀ t' e, rest.loop base .running t = some (t', e) → rest.Spec t t' e)
    (h : (handled newPc lr rest).loop base (.handling st) t = some (t', e)) : rest.Spec t t' e := by
  simp only [loop] at h
  cases hv : st.afterHandler newPc lr with
  | leave ending =>
    rw [hv] at h
    obtain rfl := Stop.afterHandler_leave hv
    exact Spec.of_incomplete h
  | again | handle =>
    rw [hv] at h
    exact again_spec ih h

/-- **The run loop**, from what happens in it. -/
theorem Trace.loop_spec {tr : Trace} {p : Phase} (h : tr.loop base p t = some (t', e)) : tr.Spec t t' e := by
  induction tr generalizing p t t' e with
  | done => cases h
  | throws =>
    cases h
    exact ⟨rfl, fun _ => Nat.one_pos, rfl, rfl, .inl ⟨rfl, rfl⟩⟩
  | stop rest ih => exact { ih h with }
  | callReturn rest ih =>
    cases p with
    | handling st => cases h
    | running => exact { ih h with }
  | exit rest ih =>
    cases p with
    | handling st => cases h
    | running => exact { ih (ite_none_right_eq_some.1 h).2 with }
  | call req inner rest ihInner ihRest =>
    obtain ⟨⟨t₁, e₁⟩, hcall, h⟩ := bind_eq_some_iff.1 h
    obtain ⟨hdepth₁, hhit₁, -, hsucc₁⟩ := callFunctionInternal_spec (fun _ _ hl => ihInner hl) hcall
    exact (ihRest h).of_call hdepth₁ hhit₁ hsucc₁
  | returned st rest ih =>
    cases p with
    | handling st' => cases h
    | running => exact returned_spec ih h
  | handled newPc lr rest ih =>
    cases p with
    | running => cases h
    | handling st => exact { handled_spec (fun _ _ h => ih h) h with }

end Loop

/-! ### What a call leaves -/

section Calls

variable {base : Word} {req : Request} {inner : Trace} {t t' : ThreadState} {e : Ending}

lemma running_of_entered (hr : req.refusal base t.callDepth = none) (hth : inner.throwCount = 0)
    (h : callFunction base req inner t = some (t', e)) :
    t'.running = if req.kind.isSafe then t.running else false := by
  rcases callFunctionInternal_cases h with ⟨hr', -⟩ | ⟨-, ⟨-, -, rfl⟩ | ⟨t₁, hl, rfl⟩⟩
  · rw [hr] at hr'
    cases hr'
  · rfl
  · have he : e ≠ .exception := fun he => (loop_spec hl).thrown he |>.ne' hth
    cases e <;> first | rfl | exact absurd rfl he

/-- **A guest call leaves `tl_running` and `call_depth` as they were** exactly when it is refused before its loop, or
when no exception is thrown in it and it is a safe call (or the thread was not running). -/
theorem callFunction_keeps_iff (h : callFunction base req inner t = some (t', e)) :
    (t'.running = t.running ∧ t'.callDepth = t.callDepth) ↔
      (req.refusal base t.callDepth).isSome ∨
        (inner.throwCount = 0 ∧ (req.kind.isSafe = true ∨ t.running = false)) := by
  have hdepth := (callFunctionInternal_spec (fun _ _ hl => loop_spec hl) h).1
  cases hr : req.refusal base t.callDepth with
  | some ending =>
    refine iff_of_true ?_ (.inl rfl)
    rcases callFunctionInternal_cases h with ⟨-, -, rfl⟩ | ⟨hr', -⟩
    · cases e <;> exact ⟨rfl, rfl⟩
    · rw [hr] at hr'
      cases hr'
  | none =>
    rw [hdepth]
    constructor
    · rintro ⟨hrun, hsame⟩
      have hth : inner.throwCount = 0 := by omega
      refine .inr ⟨hth, ?_⟩
      rw [running_of_entered hr hth h] at hrun
      cases hs : req.kind.isSafe with
      | true => exact .inl rfl
      | false =>
        rw [hs] at hrun
        exact .inr hrun.symm
    · rintro (h' | ⟨hth, hkeep⟩)
      · cases h'
      · rw [running_of_entered hr hth h, hth]
        refine ⟨?_, rfl⟩
        rcases hkeep with hs | hrun
        · rw [hs]
          rfl
        · rw [hrun, ite_self]

/-- A guest function that returns through the trampoline. -/
def returning : Trace := .callReturn (.returned { pc := callReturnStub } .done)

theorem callFunction_keeps_iff_safe : ∃ t' e,
    callFunction safeCallStackBase { kind := .safe 2 } returning { running := true, callDepth := 1 } = some (t', e) ∧
      t'.running = true ∧ t'.callDepth = 1 := by
  have h : callFunction safeCallStackBase { kind := .safe 2 } returning { running := true, callDepth := 1 } =
    some (_, _) := rfl
  exact ⟨_, _, h, (callFunction_keeps_iff h).2 (.inr ⟨rfl, .inl rfl⟩)⟩

/-- **A plain call of a handler ends the loop around it**: `tl_running` is false after it. -/
theorem callFunction_plain_stops : ¬ ∀ base req inner t t' e, callFunction base req inner t = some (t', e) →
    t'.running = t.running ∧ t'.callDepth = t.callDepth := by
  intro h
  have hcall : callFunction safeCallStackBase { kind := .plain } returning { running := true, callDepth := 1 } =
      some ({ running := false, callDepth := 1 }, .cleanReturn) := by decide
  exact absurd (h _ _ _ _ _ _ hcall).1 (by decide)

/-- The loop around such a call is left as soon as the handler returns. -/
example : (call { kind := .plain } returning (.returned { pc := 0x40001000, failed := true } .done)).loop
    safeCallStackBase .running { running := true, callDepth := 1 } =
      some ({ running := false, callDepth := 1 }, .incomplete) := by decide

end Calls

/-! ### `last_call_succeeded` -/

/-- Up to the first call with an exception every call returns, from then on none does. `hit` is a `tl_call_return_hit`
that an exception has left set. -/
def Honest : (succeeded : Bool) → (hit : Hit) → List (Request × Trace) → Prop
  | _, _, [] => True
  | succeeded, hit, (req, inner) :: calls =>
    let succeeded' := succeeded && ((!req.cpu || !req.setupThrows) && inner.noThrow)
    inner.returns hit = succeeded' ∧ Honest succeeded' (inner.hit hit) calls

/-- **`last_call_succeeded` tells how each call ended** exactly when all calls return cleanly up to the first exception,
and none does from there on: only an exception clears it. -/
theorem callFunctions_honest_iff {base : Word} : ∀ {calls : List (Request × Trace)} {t : ThreadState}
    {results : List (Ending × Bool)}, callFunctions base calls t = some results →
      ((∀ r ∈ results, r.2 = r.1.isClean) ↔ Honest t.lastCallSucceeded t.callReturnHit calls) := by
  intro calls
  induction calls with
  | nil =>
    intro t results h
    cases h
    exact iff_of_true (nofun) trivial
  | cons call calls ih =>
    intro t results h
    obtain ⟨req, inner⟩ := call
    obtain ⟨⟨t₁, e⟩, hcall, h⟩ := bind_eq_some_iff.1 h
    obtain ⟨rest, hrest, rfl⟩ := map_eq_some_iff.1 h
    obtain ⟨-, hhit, hclean, hsucc⟩ := callFunctionInternal_spec (fun _ _ hl => loop_spec hl) hcall
    simp only at hrest hhit hclean hsucc
    rw [List.forall_mem_cons, ih hrest, hhit, hsucc]
    simp only [Honest]
    rw [hclean, eq_comm]

theorem callFunctions_honest_iff_return_then_throw : ∃ results,
    callFunctions safeCallStackBase [({ kind := .plain }, returning), ({ kind := .plain }, .throws)] {} = some results ∧
      ∀ r ∈ results, r.2 = r.1.isClean := by
  have h : callFunctions safeCallStackBase [({ kind := .plain }, returning), ({ kind := .plain }, .throws)] {} =
    some _ := rfl
  exact ⟨_, h, (callFunctions_honest_iff h).2 ⟨rfl, rfl, trivial⟩⟩

/-- **A crash is not reported**: the guest crashes, and `last_call_succeeded` is still true. -/
theorem callFunctions_crash_succeeds : ¬ ∀ base calls t results, callFunctions base calls t = some results →
    ∀ r ∈ results, r.2 = r.1.isClean := by
  intro h
  have hrun : callFunctions safeCallStackBase
      [({ kind := .plain }, .returned { pc := 0x40001000, failed := true, crash := true } .done)] {} =
        some [(.incomplete, true)] := by decide
  exact absurd (h _ _ _ _ hrun _ (List.mem_singleton_self _)) (by decide)

end CrossShim.Calls
