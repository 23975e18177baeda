import CrossShim.Lib.Words
import CrossShim.Signals.State

/-!
# Non-local jumps

`setjmp`, `longjmp` and their variants of `hle_setjmp.cpp`, on a `jmp_buf` that is mapped.  A jump comes back with what
the registers were, and with the mask that was saved as `hle_signal_set_mask` normalizes it: `jump_resumes`.
-/

namespace CrossShim.Signals

open Lib Mask Function BitVec

/-- What the functions read and write; `x 0` to `x 30`, and the bits of `d 0` to `d 31`. -/
structure Machine where
  x : ℕ → Word
  d : ℕ → Word
  sp : Word
  pc : Word
  mem : Bytes
  /-- `g_blocked_signals` -/
  blocked : Word

namespace Machine

/-- The words of a `jmp_buf`, in the order of the writes; the frame pointer and the link register follow `x28`. -/
def jmpBuf (m : Machine) (saveSignalMask : Bool) : List Word :=
  (List.range 12).map (fun i => m.x (19 + i)) ++ [m.sp] ++ (List.range 8).map (fun i => m.d (8 + i)) ++
    [if saveSignalMask then 1 else 0, if saveSignalMask then m.blocked else 0]

def saveJmpContext (m : Machine) (env : Word) (saveSignalMask : Bool) : Machine :=
  if env = 0 then m else { m with mem := storeWords m.mem env (m.jmpBuf saveSignalMask) }

/-- The `i`-th word of the `jmp_buf`. -/
def word (m : Machine) (env : Word) (i : ℕ) : Word := readWord m.mem (env + BitVec.ofNat 64 (8 * i))

def restoreJmpContext (m : Machine) (env : Word) (value : BitVec 32) (restoreSignalMask : Bool) : Machine :=
  if env = 0 then m
  else
    { m with
      x := update (fun r => if 19 ≤ r ∧ r ≤ 30 then m.word env (r - 19) else m.x r) 0 (value.signExtend 64)
      d := fun r => if 8 ≤ r ∧ r ≤ 15 then m.word env (13 + (r - 8)) else m.d r
      sp := m.word env 12
      pc := m.word env 11
      blocked :=
        if restoreSignalMask ∧ m.word env 21 &&& 1 ≠ 0 then normalizeProcessMask (m.word env 22) else m.blocked }

/-- `setjmp`, `_setjmp` and `sigsetjmp`, which differ in whether the mask is saved. -/
def set (m : Machine) (saveSignalMask : Bool) : Machine :=
  let m := m.saveJmpContext (m.x 0) saveSignalMask
  { m with x := update m.x 0 0 }

def setjmp (m : Machine) : Machine := m.set true
def sigsetjmp (m : Machine) : Machine := m.set (m.x 1 ≠ 0)

/-- `longjmp`, `_longjmp` and `siglongjmp`, which differ in whether the mask is restored. -/
def jump (m : Machine) (restoreSignalMask : Bool) : Machine :=
  let value := (m.x 1).setWidth 32
  m.restoreJmpContext (m.x 0) (if value = 0 then 1 else value) restoreSignalMask

def longjmp (m : Machine) : Machine := m.jump true
def siglongjmp (m : Machine) : Machine := m.jump true

/-- In a later state the `jmp_buf` is the one that was set, and the argument of the jump. -/
structure Later (m set later : Machine) : Prop where
  env : later.x 0 = m.x 0
  kept : ∀ i < 184, later.mem (m.x 0 + BitVec.ofNat 64 i) = set.mem (m.x 0 + BitVec.ofNat 64 i)

/-- **What a jump is for**: the registers that were saved, and the value as the result of the first call. -/
structure Resumes (m later after : Machine) : Prop where
  callee : ∀ r, 19 ≤ r → r ≤ 30 → after.x r = m.x r
  vector : ∀ r, 8 ≤ r → r ≤ 15 → after.d r = m.d r
  sp : after.sp = m.sp
  pc : after.pc = m.x 30
  result : (after.x 0).setWidth 32 = if (later.x 1).setWidth 32 = (0 : BitVec 32) then 1 else (later.x 1).setWidth 32

variable {m later : Machine} {saves : Bool}

/-- **The words of the buffer** in a later state. -/
lemma word_later (h0 : m.x 0 ≠ 0) (h : Later m (m.set saves) later) {i : ℕ} (hi : i < 23) :
    (m.jmpBuf saves)[i]? = some (later.word (later.x 0) i) := by
  have hlen : (m.jmpBuf saves).length = 23 := by simp [jmpBuf]
  obtain ⟨w, hw⟩ : ∃ w, (m.jmpBuf saves)[i]? = some w := ⟨_, List.getElem?_eq_getElem (by omega)⟩
  have hsame : later.word (later.x 0) i = readWord (m.set saves).mem (m.x 0 + BitVec.ofNat 64 (8 * i)) := by
    rw [word, h.env]
    refine readWord_congr fun j hj => ?_
    have hkept := h.kept (8 * i + j) (by omega)
    rwa [ofNat_add, ← add_assoc] at hkept
  rw [hw, hsame, set, saveJmpContext, if_neg h0, storeWords_eq _ _ _ (by omega), readWord_splice_ofWords (by omega) hw]

/-- **A jump after a set**, whichever of the functions they are. -/
lemma jump_set (h0 : m.x 0 ≠ 0) (h : Later m (m.set saves) later) (restores : Bool) :
    Resumes m later (later.jump restores) ∧ (later.jump restores).blocked =
      if restores ∧ saves then normalizeProcessMask m.blocked else later.blocked := by
  have hword {i : ℕ} (hi : i < 23) := word_later h0 h hi
  have hne : later.x 0 ≠ 0 := h.env ▸ h0
  have hflags : later.word (later.x 0) 21 = if saves then 1 else 0 := by
    simpa [jmpBuf] using (hword (i := 21) (by omega)).symm
  have hmask : later.word (later.x 0) 22 = if saves then m.blocked else 0 := by
    simpa [jmpBuf] using (hword (i := 22) (by omega)).symm
  rw [jump, restoreJmpContext, if_neg hne]
  refine ⟨⟨fun r hr hr' => ?_, fun r hr hr' => ?_, ?_, ?_, ?_⟩, ?_⟩
  · obtain ⟨i, rfl⟩ := Nat.exists_eq_add_of_le hr
    have hx := hword (i := i) (by omega)
    simp [jmpBuf, List.getElem?_append, show i < 12 by omega] at hx
    simp [hr', hx, update_of_ne]
  · obtain ⟨i, rfl⟩ := Nat.exists_eq_add_of_le hr
    have hd := hword (i := 13 + i) (by omega)
    simp [jmpBuf, List.getElem?_append, show ¬ 13 + i < 12 by omega, show 13 + i - 12 = i + 1 by omega,
      show i < 8 by omega] at hd
    simp [hr', hd]
  · simpa [jmpBuf] using (hword (i := 12) (by omega)).symm
  · simpa [jmpBuf] using (hword (i := 11) (by omega)).symm
  · simp only [update_self]
    refine eq_of_getLsbD_eq fun i hi => ?_
    simp only [getLsbD_setWidth, getLsbD_signExtend, hi, show i < 64 by omega, decide_true, Bool.true_and,
      if_true]
  · rw [hflags, hmask]
    cases saves <;> simp

end Machine

open Machine

/-- **A jump comes back** with the registers that were saved and with the value, 1 for 0. `siglongjmp` sets the saved
mask, as far as a process may block signals, exactly if `sigsetjmp` was to save it. -/
theorem jump_resumes (m : Machine) (h0 : m.x 0 ≠ 0) :
    (∀ later, Later m m.setjmp later → Resumes m later later.longjmp) ∧
    ∀ later, Later m m.sigsetjmp later → Resumes m later later.siglongjmp ∧
      later.siglongjmp.blocked = if m.x 1 ≠ 0 then normalizeProcessMask m.blocked else later.blocked := by
  refine ⟨fun later h => (jump_set h0 h true).1, fun later h => ?_⟩
  obtain ⟨hresumes, hblocked⟩ := jump_set h0 h true
  refine ⟨hresumes, hblocked.trans ?_⟩
  simp

/-- The state of a call of `sigsetjmp(0x1000, 1)`. -/
def saving (blocked : Word) : Machine :=
  ⟨fun r => if r = 0 then 0x1000 else 1, fun _ => 0, 0x7fff0000, 0, fun _ => 0, blocked⟩

/-- The state of a later call of `siglongjmp(0x1000, 7)`, with other registers and another mask. -/
def saved (blocked : Word) : Machine :=
  ⟨fun r => if r = 0 then 0x1000 else 7, fun _ => 5, 0x7ffe0000, 0x4000, (saving blocked).sigsetjmp.mem, 0⟩

lemma later_saved (blocked : Word) : Later (saving blocked) (saving blocked).sigsetjmp (saved blocked) :=
  ⟨rfl, fun _ _ => rfl⟩

theorem jump_resumes_saved : Resumes (saving (bit sigtimer)) (saved (bit sigtimer)) (saved (bit sigtimer)).siglongjmp ∧
    (saved (bit sigtimer)).siglongjmp.blocked = bit sigtimer := by
  obtain ⟨hresumes, hblocked⟩ := (jump_resumes (saving (bit sigtimer)) (by decide)).2 _ (later_saved _)
  exact ⟨hresumes, hblocked.trans (by decide)⟩

/-- In a handler with `SIGCANCEL` in its `sa_mask`, the jump unblocks the signal. -/
theorem jump_unblocks_sigcancel : ∃ s : State, system.Reachable s ∧ s.calls.length = 1 ∧ Has s.blocked sigcancel ∧
    ¬ Has (saved s.blocked).siglongjmp.blocked sigcancel := by
  have hrun : [Event.call (.sigaction 10 (some { handlerPtr := 0x5000, maskBits := bit sigcancel })),
    .call (.queue 10 {})].foldlM State.step (State.init 1) = some _ := rfl
  refine ⟨_, System.Reachable.foldlM (.init ⟨1, rfl⟩) hrun, rfl, by decide, ?_⟩
  have hblocked (blocked : Word) : (saved blocked).siglongjmp.blocked = normalizeProcessMask blocked :=
    (jump_set (m := saving blocked) (by simp [saving]) (later_saved blocked) true).2.trans
      (if_pos ⟨rfl, by simp [saving]⟩)
  rw [hblocked, has_normalizeProcessMask]
  exact fun h => h.2.1 rfl

end CrossShim.Signals
