import CrossShim.Threads.Allocation

/-!
# When `pthread_create` does what it says

`pthreadCreate_ok_iff` decides for every reachable state, every request and every answer of the outside whether a
call returns 0 exactly for a new thread and leaves nothing behind with an error.  The steps of the call are the two
allocations, one after the other, and then the entry and the trampoline.
-/

namespace CrossShim.Threads

open Lib Lib.Arm64 State Function

/-! ### The steps of a creation -/

namespace State

variable {s s' : State} {n : ℕ} {w : World} {attr : Attr} {stackTop tlsBase : Word} {k : Kind} {a : Arena}
  {r : Arena × Vmas × Option Word} {p : Phase}

lemma drive_succ (h : s.advance n w = some s') (k : ℕ) : s.drive n w (k + 1) = s'.drive n w k := by
  simp only [drive, h]

lemma drive_stop (h : s.advance n w = none) (k : ℕ) : s.drive n w k = s := by
  cases k with
  | zero => rfl
  | succ k => simp only [drive, h]

lemma drive_failed {error : Word} (h : s.phase n = .failed error) (k : ℕ) : s.drive n w k = s :=
  drive_stop (by simp only [advance, h]) k

lemma goto_phase (p : Phase) : (s.goto n p).phase n = p := update_self ..

@[simp] lemma goto_arena (p : Phase) : (s.goto n p).arena = s.arena := rfl

@[simp] lemma goto_vmas (p : Phase) : (s.goto n p).vmas = s.vmas := rfl

@[simp] lemma setArena_vmas : (s.setArena k a).vmas = s.vmas := rfl

@[simp] lemma setArena_arena : (s.setArena k a).arena k = a := by
  simp only [setArena, update_self]

lemma setCommitted_arena : (s.setCommitted k r).arena k = r.1 := by
  simp only [setCommitted, setArena_arena]

lemma setCommitted_arena_of_ne {l : Kind} (h : l ≠ k) : (s.setCommitted k r).arena l = s.arena l := by
  simp only [setCommitted, setArena, update_of_ne h]

lemma setCommitted_stack_tls : (s.setCommitted .stack r).arena .tls = s.arena .tls :=
  setCommitted_arena_of_ne (by decide)

lemma setCommitted_tls_stack : (s.setCommitted .tls r).arena .stack = s.arena .stack :=
  setCommitted_arena_of_ne (by decide)

lemma setCommitted_self {address : Option Word} : s.setCommitted k (s.arena k, s.vmas, address) = s := by
  simp only [setCommitted, setArena, update_eq_self]

lemma setCommitted_took {q : Phase} :
    (((s.setArena k a).goto n p).setCommitted k r).goto n q = (s.setCommitted k r).goto n q := by
  simp only [setCommitted, setArena, goto, update_idem]

lemma drive_callerStack (hp : s.phase n = .begun attr) (h0 : attr.stackAddr ≠ 0) (k : ℕ) :
    s.drive n w (k + 1) =
      (s.goto n (.stacked attr (attr.stackAddr + attr.stackSize - 0x100))).drive n w k := by
  refine drive_succ ?_ k
  simp only [advance, takeStack, hp]
  exact if_pos h0

/-- **An allocation**, in its two steps or failing in the first: `finish` goes on with the address, or without one. -/
lemma drive_alloc {mapOk : Bool} (took : Word → Bool → Phase) (finish : State → Option Word → State)
    (htake : s.advance n w = match (s.arena k).take k with
      | none => some (finish s none)
      | some ((region, recycled), a) => some ((s.setArena k a).goto n (took region recycled)))
    (hcommit : ∀ {t : State} {region recycled}, t.phase n = took region recycled → t.advance n w =
      let r := (t.arena k).commit k t.vmas region recycled mapOk
      some (finish (t.setCommitted k r) r.2.2))
    (hfailed : ∀ t, (finish t none).phase n = .failed eagain)
    (htook : ∀ a p r address, finish (((s.setArena k a).goto n p).setCommitted k r) address =
      finish (s.setCommitted k r) address) (j : ℕ) :
    let r := (s.arena k).alloc k s.vmas mapOk
    s.drive n w (j + 2) = (finish (s.setCommitted k r) r.2.2).drive n w j := by
  dsimp only [Arena.alloc]
  cases ht : (s.arena k).take k with
  | none =>
    rw [ht] at htake
    rw [drive_succ htake, drive_failed (hfailed s), setCommitted_self, drive_failed (hfailed s)]
  | some r =>
    obtain ⟨⟨region, recycled⟩, a⟩ := r
    rw [ht] at htake
    rw [drive_succ htake, drive_succ (hcommit (goto_phase _)), htook]
    simp only [goto_arena, setArena_arena, goto_vmas, setArena_vmas]

lemma drive_stack (hp : s.phase n = .begun attr) (h0 : attr.stackAddr = 0) (k : ℕ) :
    s.drive n w (k + 2) =
      ((s.setCommitted .stack ((s.arena .stack).alloc .stack s.vmas w.mapStack)).finishStack n attr
        ((s.arena .stack).alloc .stack s.vmas w.mapStack).2.2).drive n w k := by
  refine drive_alloc (.tookStack attr) (fun s => s.finishStack n attr) ?_ (fun hp => ?_)
    (fun t => goto_phase _) (fun a p r address => ?_) k
  · simp only [advance, hp, takeStack, if_neg (not_not.2 h0)]
    cases (s.arena .stack).take .stack <;> rfl
  · simp only [advance, hp, commitStack]
  · cases address <;> exact setCommitted_took

lemma failTls_took :
    (((s.setArena .tls a).goto n p).setCommitted .tls r).failTls n attr stackTop =
      (s.setCommitted .tls r).failTls n attr stackTop := by
  simp only [failTls, recycle, setCommitted, setArena, goto, update_idem]

lemma drive_tls (hp : s.phase n = .stacked attr stackTop) (k : ℕ) :
    s.drive n w (k + 2) =
      ((s.setCommitted .tls ((s.arena .tls).alloc .tls s.vmas w.mapTls)).finishTls n attr stackTop
        ((s.arena .tls).alloc .tls s.vmas w.mapTls).2.2).drive n w k := by
  refine drive_alloc (.tookTls attr stackTop) (fun s => s.finishTls n attr stackTop) ?_ (fun hp => ?_)
    (fun t => ?_) (fun a p r address => ?_) k
  · simp only [advance, hp, takeTls]
    cases (s.arena .tls).take .tls <;> rfl
  · simp only [advance, hp, commitTls]
  · rw [finishTls, failTls_phase, update_self]
  · cases address with
    | none => exact failTls_took
    | some tlsBase => exact setCommitted_took

lemma drive_ready (hp : s.phase n = .ready attr stackTop tlsBase) (k : ℕ) :
    ∃ size, (s.drive n w (k + 2)).phase n = if w.starts then .running stackTop size else .ended := by
  have hregister : s.advance n w =
      some ({ s with threads := s.threads.insert (tid n) (entry attr stackTop tlsBase) }.goto n
        (.registered stackTop (entry attr stackTop tlsBase).stackSize)) := by
    simp only [advance, register, hp]
  refine ⟨(entry attr stackTop tlsBase).stackSize, ?_⟩
  rw [drive_succ hregister, drive_succ (by simp only [advance, clone, goto_phase]; rfl)]
  cases w.starts with
  | true =>
    rw [drive_stop (by simp only [advance, goto_phase, if_true])]
    exact goto_phase _
  | false =>
    rw [drive_stop (by simp only [advance, goto_phase, Bool.false_eq_true, if_false])]
    exact goto_phase _

end State

/-! ### What the caller finds -/

section Call

variable {s t u : State} {r : Request} {w : World} {attr : Attr} {n : ℕ} {stackTop error : Word}

def Undone (s u : State) : Prop :=
  u.threads = s.threads ∧ (∀ k, (u.arena k).left k = (s.arena k).left k) ∧ u.vmas.count = s.vmas.count

lemma createOk_error (he : error ≠ 0) : CreateOk s ⟨u, some error, false⟩ ↔ Undone s u := by
  constructor
  · intro h
    exact h.undone error rfl he
  · intro h
    refine ⟨rfl, iff_of_false (fun h0 => he (Option.some.inj h0)) nofun, fun _ _ _ => h⟩

lemma createOk_zero {started : Bool} : CreateOk s ⟨u, some 0, started⟩ ↔ started = true := by
  constructor
  · intro h
    exact h.zero.1 rfl
  · intro h
    refine ⟨rfl, iff_of_true rfl h, fun e he hne => absurd (Option.some.inj he).symm hne⟩

def State.begin (s : State) (attr : Attr) : State :=
  { s with nextThreadId := s.nextThreadId + 1 }.goto s.nextThreadId (.begun attr)

lemma drive_begin (h0 : attr.stackAddr = 0) (k : ℕ) : (s.begin attr).drive s.nextThreadId w (k + 2) =
    (((s.begin attr).setCommitted .stack ((s.arena .stack).alloc .stack s.vmas w.mapStack)).finishStack s.nextThreadId attr
      ((s.arena .stack).alloc .stack s.vmas w.mapStack).2.2).drive s.nextThreadId w k :=
  drive_stack (goto_phase _) h0 k

lemma create_begin (hattr : checkAttr r.args = .ok attr) (hexit : r.exitInProgress = false) :
    s.create r.args = .ok (s.begin attr) := by
  have hexit' : r.args.exitInProgress = false := hexit
  simp only [create, hattr, hexit', Bool.false_eq_true, if_false]
  rfl

lemma pthreadCreate_failed (hattr : checkAttr r.args = .ok attr) (hexit : r.exitInProgress = false)
    (hu : (s.begin attr).drive s.nextThreadId w 6 = u) (hp : u.phase s.nextThreadId = .failed error) :
    s.pthreadCreate r w = ⟨u, some error, false⟩ := by
  simp only [pthreadCreate, create_begin hattr hexit, hu, hp, hexit, Bool.false_eq_true, if_false]

lemma callCpu_pc : (u.callCpu n r).pc = cloneTrampolineAddr := by
  unfold callCpu
  split <;> rfl

lemma callCpu_x8 : (u.callCpu n r).x 8 = sysClone := by
  unfold callCpu
  split <;> rfl

lemma pthreadCreate_cloned {size : Word} (hattr : checkAttr r.args = .ok attr) (hexit : r.exitInProgress = false)
    (hu : (s.begin attr).drive s.nextThreadId w 6 = u)
    (hp : u.phase s.nextThreadId = if w.starts then .running stackTop size else .ended) :
    s.pthreadCreate r w = ⟨u, some 0, w.starts⟩ := by
  obtain ⟨c, hparent, hx0⟩ : ∃ c, runTrampoline w.clone.1 w.other (u.callCpu s.nextThreadId r) = .returned c ∧
      c.x 0 = 0 := by
    obtain ⟨c, hc, h0, -⟩ := trampoline_parent callCpu_pc callCpu_x8 w.clone.2
    exact ⟨c, hc, h0⟩
  obtain ⟨c', hchild, hwrapper⟩ : ∃ c, runTrampoline 0 w.other (u.callCpu s.nextThreadId r) = .elsewhere c ∧
      c.pc = threadWrapperAddr := trampoline_child callCpu_pc callCpu_x8
  have hin : Left.inWrapper (.elsewhere c') = true := decide_eq_true hwrapper
  simp only [pthreadCreate, create_begin hattr hexit, hu, hexit, Bool.false_eq_true, if_false, hparent, hchild,
    hin, Bool.and_true, Left.x0, hx0, hp]
  cases w.starts <;> rfl

structure StackDone (s t : State) (n : ℕ) (attr : Attr) (stackTop : Word) : Prop where
  threads : t.threads = s.threads
  phase : t.phase n = .stacked attr stackTop
  tls : t.arena .tls = s.arena .tls
  vmas : t.vmas.Ok
  count : t.vmas.count = s.vmas.count + attr.stackVmas
  held : t.vmas.held ((s.arena .tls).upcoming .tls) = s.vmas.held ((s.arena .tls).upcoming .tls)
  callers : attr.stackAddr ≠ 0 → t.arena .stack = s.arena .stack
  arena : attr.stackAddr = 0 → stackTop = (s.arena .stack).upcoming .stack ∧
    ((t.arena .stack).recycle .stack stackTop).left .stack = (s.arena .stack).left .stack ∧
    t.vmas.held stackTop = s.vmas.held stackTop + attr.stackVmas

lemma CreateInv.stackDone_callers (hi : CreateInv s) (h0 : attr.stackAddr ≠ 0) :
    StackDone s ((s.begin attr).goto s.nextThreadId (.stacked attr stackTop)) s.nextThreadId attr stackTop := by
  refine ⟨rfl, goto_phase _, rfl, hi.vmas, ?_, rfl, fun _ => rfl, fun h => absurd h h0⟩
  rw [Attr.stackVmas, if_neg h0]
  rfl

lemma CreateInv.stackDone_arena (hi : CreateInv s) (h0 : attr.stackAddr = 0)
    (hdone : AllocDone .stack (s.arena .stack) s.vmas w.mapStack) (k : ℕ) :
    ∃ t, (s.begin attr).drive s.nextThreadId w (k + 2) = t.drive s.nextThreadId w k ∧
      StackDone s t s.nextThreadId attr ((s.arena .stack).upcoming .stack) := by
  have hvmas : attr.stackVmas = Kind.stack.vmas := if_pos h0
  refine ⟨((s.begin attr).setCommitted .stack ((s.arena .stack).alloc .stack s.vmas w.mapStack)).goto s.nextThreadId _, ?_,
    rfl, goto_phase _, ?_, (hi.arena .stack).alloc_ok hi.vmas _, ?_,
    hdone.held _ (upcoming_ne (hi.arena .stack) (hi.arena .tls)), fun h => absurd h0 h, fun _ => ⟨rfl, ?_, ?_⟩⟩
  · rw [drive_begin h0, hdone.result]
    rfl
  · rw [goto_arena, setCommitted_stack_tls]
    rfl
  · rw [hvmas]
    exact hdone.count
  · rw [goto_arena, setCommitted_arena]
    exact hdone.recycled
  · rw [hvmas]
    exact hdone.heldKey

lemma undone_iff (hthreads : u.threads = s.threads) (hstack : (u.arena .stack).left .stack = (s.arena .stack).left .stack) :
    Undone s u ↔ (u.arena .tls).left .tls = (s.arena .tls).left .tls ∧ u.vmas.count = s.vmas.count := by
  constructor
  · rintro ⟨-, hleft, hcount⟩
    exact ⟨hleft .tls, hcount⟩
  · rintro ⟨hleft, hcount⟩
    refine ⟨hthreads, fun k => ?_, hcount⟩
    cases k with
    | stack => exact hstack
    | tls => exact hleft

lemma undone_failTls_arena (h : StackDone s t n attr stackTop) (h0 : attr.stackAddr = 0)
    {r : Arena × Vmas × Option Word} :
    Undone s ((t.setCommitted .tls r).failTls n attr stackTop) ↔
      r.1.left .tls = (s.arena .tls).left .tls ∧ (r.2.1.release stackTop).count = s.vmas.count := by
  rw [failTls, if_pos h0]
  refine Iff.trans (undone_iff (by exact h.threads) ?_) ?_
  · show (((t.setCommitted .tls r).arena .stack).recycle .stack stackTop).left .stack = _
    rw [setCommitted_tls_stack]
    exact (h.arena h0).2.1
  · show (((t.setCommitted .tls r).arena .tls).recycle .tls 0).left .tls = _ ∧ _ ↔ _
    rw [Arena.recycle_zero, setCommitted_arena]
    rfl

lemma undone_failTls_callers (h : StackDone s t n attr stackTop) (h0 : attr.stackAddr ≠ 0)
    {r : Arena × Vmas × Option Word} :
    Undone s ((t.setCommitted .tls r).failTls n attr stackTop) ↔
      r.1.left .tls = (s.arena .tls).left .tls ∧ r.2.1.count = s.vmas.count := by
  rw [failTls, if_neg h0]
  refine Iff.trans (undone_iff (by exact h.threads) ?_) ?_
  · rw [goto_arena, setCommitted_tls_stack, h.callers h0]
  · rw [goto_arena, setCommitted_arena]
    rfl

lemma StackDone.tls_fails (hi : CreateInv s) (h : StackDone s t n attr stackTop)
    (hf : AllocFails .tls (s.arena .tls) (s.vmas.count + attr.stackVmas) w.mapTls) (k : ℕ) :
    (t.drive n w (k + 2)).phase n = .failed eagain ∧
      (Undone s (t.drive n w (k + 2)) ↔
        AllocUndone .tls (s.arena .tls) s.vmas (s.vmas.count + attr.stackVmas) w.mapTls ∧
          (attr.stackAddr = 0 → s.vmas.held ((s.arena .stack).upcoming .stack) = 0)) := by
  rw [← h.count] at hf
  obtain ⟨leak, lost, hfailed⟩ := (hi.arena .tls).allocFailed h.vmas hf
  have hundone : (leak = 0 ∧ lost = 0) ↔
      AllocUndone .tls (s.arena .tls) s.vmas (s.vmas.count + attr.stackVmas) w.mapTls := by
    rw [hfailed.undone, h.count]
    exact AllocUndone.congr h.held
  have hphase (r : Arena × Vmas × Option Word) :
      ((t.setCommitted .tls r).failTls n attr stackTop).phase n = .failed eagain := by
    rw [failTls_phase, update_self]
  have hdrive : t.drive n w (k + 2) =
      (t.setCommitted .tls ((s.arena .tls).alloc .tls t.vmas w.mapTls)).failTls n attr stackTop := by
    rw [drive_tls h.phase, h.tls, hfailed.result]
    exact drive_failed (hphase _) k
  have hleft := hfailed.left
  have hcount := hfailed.count
  rw [h.count] at hcount
  rw [hdrive, ← hundone]
  refine ⟨hphase _, ?_⟩
  by_cases h0 : attr.stackAddr = 0
  · obtain ⟨rfl, -, hheld⟩ := h.arena h0
    have hne := upcoming_ne (hi.arena .stack) (hi.arena .tls)
    have hle := hi.vmas.held_add_le hne
    have hlost_le := hfailed.lost_le
    rw [h.held] at hlost_le
    have hkey := hfailed.held _ hne.symm
    rw [hheld] at hkey
    have hrelease := (Vmas.release_eq (v := ((s.arena .tls).alloc .tls t.vmas w.mapTls).2.1)
      (hi.arena .stack).upcoming_ne_zero).1
    rw [undone_failTls_arena h h0, hrelease]
    constructor
    · rintro ⟨hl, hc⟩
      exact ⟨⟨by omega, by omega⟩, fun _ => by omega⟩
    · rintro ⟨⟨hleak, hlost⟩, hzero⟩
      have hzero := hzero h0
      exact ⟨by omega, by omega⟩
  · have hvmas : attr.stackVmas = 0 := if_neg h0
    rw [undone_failTls_callers h h0]
    constructor
    · rintro ⟨hl, hc⟩
      exact ⟨⟨by omega, by omega⟩, fun h => absurd h h0⟩
    · rintro ⟨⟨hleak, hlost⟩, -⟩
      exact ⟨by omega, by omega⟩

lemma StackDone.tls_done (hi : CreateInv s) (h : StackDone s t n attr stackTop)
    (hf : ¬ AllocFails .tls (s.arena .tls) (s.vmas.count + attr.stackVmas) w.mapTls) (k : ℕ) :
    ∃ size, (t.drive n w (k + 4)).phase n = if w.starts then .running stackTop size else .ended := by
  rw [← h.count] at hf
  have hdone := (hi.arena .tls).allocDone hf
  rw [drive_tls h.phase, h.tls, hdone.result]
  exact drive_ready (goto_phase _) k

lemma CreateInv.stack_fails (hi : CreateInv s) (h0 : attr.stackAddr = 0)
    (hf : AllocFails .stack (s.arena .stack) s.vmas.count w.mapStack) (k : ℕ) :
    ((s.begin attr).drive s.nextThreadId w (k + 2)).phase s.nextThreadId = .failed eagain ∧
      (Undone s ((s.begin attr).drive s.nextThreadId w (k + 2)) ↔
        AllocUndone .stack (s.arena .stack) s.vmas s.vmas.count w.mapStack) := by
  obtain ⟨leak, lost, hfailed⟩ := (hi.arena .stack).allocFailed hi.vmas hf
  have hdrive : (s.begin attr).drive s.nextThreadId w (k + 2) =
      ((s.begin attr).setCommitted .stack ((s.arena .stack).alloc .stack s.vmas w.mapStack)).goto s.nextThreadId
        (.failed eagain) := by
    rw [drive_begin h0, hfailed.result]
    exact drive_failed (goto_phase _) k
  have hleft := hfailed.left
  have hcount := hfailed.count
  rw [hdrive, ← hfailed.undone]
  refine ⟨goto_phase _, ?_⟩
  constructor
  · rintro ⟨-, hlefts, hc⟩
    have hl := hlefts .stack
    rw [goto_arena, setCommitted_arena] at hl
    change ((s.arena .stack).alloc .stack s.vmas w.mapStack).2.1.count = s.vmas.count at hc
    exact ⟨by omega, by omega⟩
  · rintro ⟨hleak, hlost⟩
    refine ⟨rfl, fun l => ?_, ?_⟩
    · cases l with
      | stack =>
        rw [goto_arena, setCommitted_arena]
        omega
      | tls =>
        rw [goto_arena, setCommitted_stack_tls]
        rfl
    · show ((s.arena .stack).alloc .stack s.vmas w.mapStack).2.1.count = s.vmas.count
      omega

lemma StackDone.createOk_iff (hi : CreateInv s) (h : StackDone s t s.nextThreadId attr stackTop) {k : ℕ}
    (hdrive : (s.begin attr).drive s.nextThreadId w 6 = t.drive s.nextThreadId w (k + 4))
    (hattr : checkAttr r.args = .ok attr) (hexit : r.exitInProgress = false) :
    CreateOk s (s.pthreadCreate r w) ↔
      (AllocUndone .tls (s.arena .tls) s.vmas (s.vmas.count + attr.stackVmas) w.mapTls ∧
          (attr.stackAddr = 0 → s.vmas.held ((s.arena .stack).upcoming .stack) = 0)) ∨
        (¬ AllocFails .tls (s.arena .tls) (s.vmas.count + attr.stackVmas) w.mapTls ∧ w.starts = true) := by
  by_cases hf : AllocFails .tls (s.arena .tls) (s.vmas.count + attr.stackVmas) w.mapTls
  · obtain ⟨hphase, hundone⟩ := h.tls_fails hi hf (k + 2)
    rw [pthreadCreate_failed hattr hexit hdrive hphase, createOk_error (by decide), hundone]
    constructor
    · exact .inl
    · rintro (hclean | ⟨hnot, -⟩)
      · exact hclean
      · exact absurd hf hnot
  · obtain ⟨size, hphase⟩ := h.tls_done hi hf k
    rw [pthreadCreate_cloned hattr hexit hdrive hphase, createOk_zero]
    constructor
    · intro hstarts
      exact .inr ⟨hf, hstarts⟩
    · rintro (⟨hundone, -⟩ | ⟨-, hstarts⟩)
      · exact absurd hundone.fails hf
      · exact hstarts

lemma checkAttr_error (h : checkAttr r.args = .error error) : error ≠ 0 := by
  unfold checkAttr at h
  split at h
  · cases h
    decide
  · dsimp only at h
    split at h
    · cases h
      decide
    · cases hsched : r.schedOk with
      | true =>
        simp only [Request.args, hsched, if_true] at h
        cases h
      | false =>
        simp only [Request.args, hsched, Bool.false_eq_true, if_false] at h
        cases h
        decide

/-- **A call returns 0 exactly for a new thread, and an error leaves nothing behind**, exactly if the arguments are
refused, or the process is not exiting and the first allocation that fails leaves nothing behind, or none fails and
`clone` starts a thread. -/
theorem pthreadCreate_ok_iff (hs : system.Reachable s) (r : Request) (w : World) :
    CreateOk s (s.pthreadCreate r w) ↔ CleanCreate s r w := by
  have hi := reachable_createInv hs
  unfold CleanCreate
  cases hattr : checkAttr r.args with
  | error error =>
    have hcall : s.pthreadCreate r w = ⟨s, some error, false⟩ := by
      simp only [pthreadCreate, create, hattr]
    rw [hcall, createOk_error (checkAttr_error hattr)]
    exact iff_of_true ⟨rfl, fun _ => rfl, rfl⟩ trivial
  | ok attr =>
    dsimp only
    cases hexit : r.exitInProgress with
    | true =>
      obtain ⟨u, hcall⟩ : ∃ u, s.pthreadCreate r w = ⟨u, some 0, false⟩ := by
        have hexit' : r.args.exitInProgress = true := hexit
        simp only [pthreadCreate, create, hattr, hexit, hexit', if_true]
        exact ⟨_, rfl⟩
      rw [hcall, createOk_zero]
      exact iff_of_false nofun fun h => absurd h.1 nofun
    | false =>
      by_cases h0 : attr.stackAddr = 0
      · by_cases hf : AllocFails .stack (s.arena .stack) s.vmas.count w.mapStack
        · obtain ⟨hphase, hundone⟩ := hi.stack_fails h0 hf 4
          rw [pthreadCreate_failed hattr hexit rfl hphase, createOk_error (by decide), hundone]
          constructor
          · intro h
            exact ⟨rfl, .inl ⟨h0, h⟩⟩
          · rintro ⟨-, ⟨-, h⟩ | ⟨hnot, -⟩⟩
            · exact h
            · exact absurd hf (hnot h0)
        · obtain ⟨t, hdrive, hdone⟩ := hi.stackDone_arena h0 ((hi.arena .stack).allocDone hf) 4
          rw [hdone.createOk_iff hi hdrive hattr hexit]
          constructor
          · intro h
            exact ⟨rfl, .inr ⟨fun _ => hf, h⟩⟩
          · rintro ⟨-, ⟨-, h⟩ | ⟨-, h⟩⟩
            · exact absurd h.fails hf
            · exact h
      · have hdrive := drive_callerStack (s := s.begin attr) (w := w) (goto_phase _) h0 5
        rw [(hi.stackDone_callers h0).createOk_iff hi hdrive hattr hexit]
        constructor
        · intro h
          exact ⟨rfl, .inr ⟨fun h => absurd h h0, h⟩⟩
        · rintro ⟨-, ⟨h, -⟩ | ⟨-, h⟩⟩
          · exact absurd h h0
          · exact h

end Call

/-- A call at the start of the process, with a `clone` that succeeds. -/
theorem createOk_first : CreateOk init
    (init.pthreadCreate { startRoutine := 0x1000 } ⟨true, true, ⟨4242, by decide⟩, 0⟩) := by
  refine (pthreadCreate_ok_iff (.init rfl) _ _).2 ?_
  have hattr : checkAttr (Request.args { startRoutine := 0x1000 }) = .ok ⟨false, 0, 0x800000⟩ := by decide
  have hstack : ¬ AllocFails .stack (init.arena .stack) init.vmas.count true := by
    rintro (⟨-, h⟩ | h | ⟨-, h⟩)
    · exact absurd h (by decide)
    · exact absurd h (by decide)
    · cases h
  have htls : ¬ AllocFails .tls (init.arena .tls) (init.vmas.count + 2) true := by
    rintro (⟨-, h⟩ | h | ⟨-, h⟩)
    · exact absurd h (by decide)
    · exact absurd h (by decide)
    · cases h
  unfold CleanCreate
  rw [hattr]
  exact ⟨rfl, .inr ⟨fun _ => hstack, .inr ⟨htls, by decide⟩⟩⟩

end CrossShim.Threads
