import CrossShim.Threads.Registry

/-!
# `pthread_self`

`pthread_create` stores the value of a counter as the id of the new thread; `pthread_self` computes an id from the
number of the stack region the stack pointer is in.  The two agree, and the threads are told apart, in every run in
which each thread gets the stack region with the number of its id (`reach_selfOk`).  A region that was recycled has
the number of an earlier thread (`self_of_recycled`).
-/

namespace CrossShim.Threads

open Lib Kind

/-- The threads that can call `pthread_self`. -/
inductive Guest where
  | main
  | worker (k : ℕ)
  | created (n : ℕ)
  deriving DecidableEq

/-- The stack pointer is in the stack of a live thread. -/
def OnStack (s : State) (sp : Word) : Guest → Prop
  | .main => sp ≥ 0x7f800000 ∧ sp < 0x80000000
  | .worker k => 1 ≤ k ∧ k ≤ 31 ∧ sp - (safeCallStackBase + BitVec.ofNat 64 k * safeCallStackSize) < safeCallStackSize
  | .created n => ∃ stackTop stackSize, s.phase n = .running stackTop stackSize ∧ InStack stackTop stackSize sp

/-- A created thread has the id it was given, and no two live threads have the same. -/
def SelfOk (s : State) : Prop :=
  (∀ n sp tlCurrent, OnStack s sp (.created n) → pthreadSelf ⟨0, tlCurrent, sp⟩ = tid n) ∧
    ∀ g g' sp sp' tlCurrent tlCurrent', g ≠ g' → OnStack s sp g → OnStack s sp' g' →
      pthreadSelf ⟨0, tlCurrent, sp⟩ ≠ pthreadSelf ⟨0, tlCurrent', sp'⟩

/-- The condition on a step: a new thread has no caller's stack, and gets the region with the number of its id. -/
def Numbered (s : State) : Event → Prop
  | .takeStack n => ∀ attr, s.phase n = .begun attr → attr.stackAddr = 0 ∧
      ∀ region recycled a, (s.arena .stack).take .stack = some ((region, recycled), a) →
        Arena.Slot .stack region (n - 0x1000)
  | _ => True

instance {o : Option ((Word × Bool) × Arena)} {n : ℕ} :
    Decidable (∀ region recycled a, o = some ((region, recycled), a) → Arena.Slot .stack region n) :=
  decidable_of_iff (∀ x ∈ o, x.1.1.toNat = stack.base.toNat + n * stack.size.toNat ∧
    x.1.1.toNat + stack.size.toNat ≤ stack.ceiling.toNat)
    ⟨fun h _ _ _ ho => ⟨(h _ ho).1, (h _ ho).2⟩, fun h _ ho => ⟨(h _ _ _ ho).1, (h _ _ _ ho).2⟩⟩

instance : DecidableRel Numbered := fun s e => by
  rcases e <;> dsimp only [Numbered] <;> infer_instance

/-! ### The regions of the threads -/

/-- The stack of a thread is the region with its number. -/
def NumberedStack (n : ℕ) (stackTop : Word) : Prop :=
  ∃ region, Arena.Slot .stack region (n - 0x1000) ∧ stackTop = region + stack.offset

def Phase.Numbered (n : ℕ) : Phase → Prop
  | .tookStack attr region _ => attr.stackAddr = 0 ∧ Arena.Slot .stack region (n - 0x1000)
  | .stacked attr stackTop => attr.stackAddr = 0 ∧ NumberedStack n stackTop
  | .tookTls attr stackTop _ _ => attr.stackAddr = 0 ∧ NumberedStack n stackTop
  | .ready attr stackTop _ => attr.stackAddr = 0 ∧ NumberedStack n stackTop
  | .registered stackTop stackSize => stackSize = stack.size ∧ NumberedStack n stackTop
  | .running stackTop stackSize => stackSize = stack.size ∧ NumberedStack n stackTop
  | _ => True

structure NumberedInv (s : State) : Prop where
  next : 0x1000 ≤ s.nextThreadId
  begun : ∀ n, s.phase n ≠ .idle → 0x1000 ≤ n
  phase : ∀ n, (s.phase n).Numbered n

variable {s s' : State} {n : ℕ}

lemma numberedInv_init : NumberedInv .init :=
  ⟨le_rfl, fun _ h => absurd rfl h, fun _ => trivial⟩

theorem numberedInv_step {e : Event} (hi : NumberedInv s) (hc : Numbered s e) (h : step s e = some s') :
    NumberedInv s' := by
  have hbegun : ∀ {n p}, s.phase n = p → p ≠ .idle → 0x1000 ≤ n := fun hp h => hi.begun _ (hp ▸ h)
  have hphase : ∀ {n p}, s.phase n = p → p.Numbered n := fun hp => hp ▸ hi.phase _
  refine ⟨hi.next.trans (step_moves h).1, fun n hn => ?_, fun n => ?_⟩
  · obtain heq | ⟨p, -, hm⟩ := step_phase h n
    · exact hi.begun n (heq ▸ hn)
    · cases hm with
      | begun | unstarted => exact hi.next
      | _ => exact hbegun ‹s.phase n = _› (by simp)
  · obtain heq | ⟨p, heq, hm⟩ := step_phase h n
    · rw [heq]
      exact hi.phase n
    · rw [heq]
      cases hm with
      | callerStack hp hne => exact absurd (hc _ hp).1 hne
      | tookStack hp h0 ht => exact ⟨h0, (hc _ hp).2 _ _ _ ht⟩
      | stacked hp => exact ⟨(hphase hp).1, _, (hphase hp).2, rfl⟩
      | tookTls hp | ready hp | running hp => exact (hphase hp :)
      | registered hp => exact ⟨if_neg (not_not.2 (hphase hp).1), (hphase hp).2⟩
      | _ => trivial

/-! ### The identities of live threads -/

lemma inStack_of_slot {region sp : Word} (h : InStack (region + stack.offset) stack.size sp) :
    sp - region < stack.size := by
  have hb : region + stack.offset - stack.size + 0x100 = region := by
    simp only [offset, size]
    bv_omega
  unfold InStack at h
  rwa [hb] at h

/-- The identity of a thread as a number, and the numbers there are. -/
def Guest.selfId : Guest → ℕ
  | .main => 1
  | .worker k => 0x40000000 + k
  | .created n => n

def Guest.InRange : Guest → Prop
  | .main => True
  | .worker k => 1 ≤ k ∧ k ≤ 31
  | .created n => 0x1000 ≤ n ∧ n < 0x1100

lemma NumberedInv.self (hi : NumberedInv s) {g : Guest} {sp : Word} (h : OnStack s sp g) (tlCurrent : Word) :
    pthreadSelf ⟨0, tlCurrent, sp⟩ = BitVec.ofNat 64 g.selfId ∧ g.InRange := by
  cases g with
  | main => exact ⟨pthreadSelf_main h tlCurrent, trivial⟩
  | worker k =>
    obtain ⟨h1, h31, hsp⟩ := h
    exact ⟨pthreadSelf_worker h1 h31 hsp tlCurrent, h1, h31⟩
  | created n =>
    obtain ⟨stackTop, stackSize, hp, hsp⟩ := h
    have hn : 0x1000 ≤ n := hi.begun n (by rw [hp]; simp)
    have hnum := hi.phase n
    rw [hp] at hnum
    obtain ⟨rfl, region, hslot, rfl⟩ := hnum
    have hlt := slot_lt hslot
    refine ⟨?_, hn, by omega⟩
    rw [pthreadSelf_of_slot hslot (inStack_of_slot hsp)]
    unfold slotTid Guest.selfId
    rw [Nat.add_sub_cancel' hn]

lemma Guest.selfId_injective {g g' : Guest} (hg : g.InRange) (hg' : g'.InRange)
    (h : BitVec.ofNat 64 g.selfId = BitVec.ofNat 64 g'.selfId) : g = g' := by
  have hlt : ∀ {g : Guest}, g.InRange → g.selfId < 2 ^ 64 := by
    rintro (_ | k | n) h <;> simp only [Guest.InRange, Guest.selfId] at * <;> omega
  have heq : g.selfId = g'.selfId := by
    have := congrArg BitVec.toNat h
    rwa [BitVec.toNat_ofNat, BitVec.toNat_ofNat, Nat.mod_eq_of_lt (hlt hg), Nat.mod_eq_of_lt (hlt hg')] at this
  cases g <;> cases g' <;> simp only [Guest.InRange, Guest.selfId] at hg hg' heq
  case main.main => rfl
  case worker.worker => exact congrArg Guest.worker (by omega)
  case created.created => exact congrArg Guest.created heq
  all_goals omega

/-- **`pthread_self` is the id that `pthread_create` gave**, in every run in which each thread gets the stack region
with the number of its id. -/
theorem reach_selfOk (hr : system.Reach Numbered s) : SelfOk s := by
  have hinit : ∀ s, system.init s → NumberedInv s := by
    rintro s rfl
    exact numberedInv_init
  have hi : NumberedInv s := hr.invariant hinit fun _ _ _ hi hc h => numberedInv_step hi hc h
  refine ⟨fun n sp tlCurrent h => (hi.self h tlCurrent).1, ?_⟩
  intro g g' sp sp' tlCurrent tlCurrent' hne h h' heq
  obtain ⟨h1, hg⟩ := hi.self h tlCurrent
  obtain ⟨h2, hg'⟩ := hi.self h' tlCurrent'
  rw [h1, h2] at heq
  exact hne (Guest.selfId_injective hg hg' heq)

theorem reach_selfOk_two_threads : ∃ s, system.Reach Numbered s ∧ s.phase 0x1000 = .running 0x900FFF00 0x100000 ∧
    s.phase 0x1001 = .running 0x901FFF00 0x100000 ∧ SelfOk s := by
  have hrun : ((created 0x1000 ++ created 0x1001).foldlM (System.checked Numbered step) .init).map
      (fun s => (s.phase 0x1000, s.phase 0x1001)) =
      some (.running 0x900FFF00 0x100000, .running 0x901FFF00 0x100000) := by
    decide +kernel
  obtain ⟨s, hs, heq⟩ := Option.map_eq_some_iff.1 hrun
  simp only [Prod.mk.injEq] at heq
  have hreach : system.Reach Numbered s := System.Reach.foldlM _ (.init rfl) hs
  exact ⟨s, hreach, heq.1, heq.2, reach_selfOk hreach⟩

/-- A thread is created, ends and is joined, and another one is created. -/
def recycledRun : List Event :=
  created 0x1000 ++ endedAndJoined 0x1000 [0x1000] 0x900FFF00 ++ created 0x1001

/-- **A recycled stack has the number of an earlier thread**: the second thread on it takes itself for the first. -/
theorem self_of_recycled : ¬ ∀ s, system.Reachable s → SelfOk s := by
  intro h
  have hrun : recycledRun.foldlM step State.init = some _ := rfl
  have hok := (h _ (System.Reachable.foldlM (.init rfl) hrun)).1 0x1001 0x900FFF00 0
    ⟨0x900FFF00, 0x100000, rfl, by decide⟩
  exact absurd hok (by decide)

end CrossShim.Threads
