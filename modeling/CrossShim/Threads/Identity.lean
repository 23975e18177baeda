import CrossShim.Layout
import CrossShim.Threads.Arena

/-!
# Who is running

The handlers of `hle_pthread.cpp` find out which guest thread calls them from the stack pointer: a stack in the
thread arena gives the number of its region, the safe-call stacks give the number of their worker, and everything
else is taken for the main thread.  A nested call on the first safe-call stack is attributed to the thread that
its host thread was last seen with (`tl_current_thread_id`).
-/

namespace CrossShim.Threads

open Lib BitVec Kind

abbrev safeCallArenaEnd : Word := 0xB0000000
abbrev safeCallTidBase : Word := 0x40000000

/-- What the handlers look at: the override of a timer callback, the last identity seen, and the stack pointer. -/
structure Context where
  virtualTid : Word
  tlCurrent : Word
  sp : Word

def isSafeCallStackSp (sp : Word) : Bool := sp ≥ safeCallStackBase && sp < safeCallArenaEnd

def safeCallSlotFromSp (sp : Word) : Word := (sp - safeCallStackBase) / safeCallStackSize

def getThreadIdFromSp (sp : Word) : Word :=
  if sp ≥ 0x7f800000 ∧ sp < 0x80000000 then 0
  else if sp ≥ stack.base then 0x1000 + (sp - stack.base) / stack.size
  else 0

/-- `get_current_guest_pthread_id`: the identity, and the new `tl_current_thread_id`. -/
def getCurrentGuestPthreadId (c : Context) : Word × Word :=
  if c.virtualTid ≠ 0 then (c.virtualTid, c.tlCurrent)
  else if isSafeCallStackSp c.sp then
    let slot := safeCallSlotFromSp c.sp
    if slot = 0 then (if c.tlCurrent = 0 then 1 else c.tlCurrent, c.tlCurrent)
    else (safeCallTidBase + slot, c.tlCurrent)
  else
    let threadId := getThreadIdFromSp c.sp
    let guestThreadId := if threadId = 0 then 1 else threadId
    (guestThreadId, guestThreadId)

def pthreadSelf (c : Context) : Word := (getCurrentGuestPthreadId c).1

/-- `get_current_tls_thread_id`: whose thread-specific values are used, and the new `tl_current_thread_id`. -/
def getCurrentTlsThreadId (c : Context) : Word × Word :=
  if c.virtualTid ≠ 0 then (c.virtualTid, c.tlCurrent)
  else if isSafeCallStackSp c.sp then
    let slot := safeCallSlotFromSp c.sp
    if slot = 0 then (if c.tlCurrent = 0 ∨ c.tlCurrent = 1 then 0 else c.tlCurrent, c.tlCurrent)
    else (safeCallTidBase + slot, c.tlCurrent)
  else
    let threadId := getThreadIdFromSp c.sp
    (threadId, if threadId = 0 then 1 else threadId)

variable {sp : Word} {k : ℕ}

lemma isSafeCallStackSp_of_lt (h : sp < safeCallStackBase) : isSafeCallStackSp sp = false := by
  unfold isSafeCallStackSp
  rw [decide_eq_false (show ¬ sp ≥ safeCallStackBase by bv_omega)]
  rfl

/-! ### On a stack of the arena -/

/-- The identity of the thread on the `i`-th stack of the arena. -/
def slotTid (i : ℕ) : Word := BitVec.ofNat 64 (0x1000 + i)

section Slots

variable {region sp : Word} {i : ℕ}

section

variable (h : Arena.Slot .stack region i)
include h

lemma slot_lt : i < 0x100 := by
  obtain ⟨h1, h2⟩ := h
  simp only [base, size, ceiling] at *
  bv_omega

lemma slotTid_ne_zero : slotTid i ≠ 0 := by
  have := slot_lt h
  unfold slotTid
  bv_omega

lemma slotTid_ne_one : slotTid i ≠ 1 := by
  have := slot_lt h
  unfold slotTid
  bv_omega

section

variable (hsp : sp - region < stack.size)
include hsp

lemma not_safe_of_slot : isSafeCallStackSp sp = false := by
  obtain ⟨h1, h2⟩ := h
  simp only [base, size, ceiling] at *
  exact isSafeCallStackSp_of_lt (by bv_omega)

theorem getThreadIdFromSp_of_slot : getThreadIdFromSp sp = slotTid i := by
  obtain ⟨h1, h2⟩ := h
  simp only [base, size, ceiling] at *
  have hdiv : (sp - 0x90000000) / 0x100000 = BitVec.ofNat 64 i := by
    apply eq_of_toNat_eq
    rw [toNat_udiv, toNat_ofNat]
    have hs : (sp - 0x90000000 : Word).toNat = i * 0x100000 + (sp - region).toNat := by bv_omega
    have hlt : (sp - region).toNat < 0x100000 := hsp
    rw [hs]
    show (i * 0x100000 + _) / 0x100000 = _
    omega
  unfold getThreadIdFromSp
  rw [if_neg (by bv_omega), if_pos (show sp ≥ stack.base by simp only [base]; bv_omega)]
  simp only [base, size]
  rw [hdiv]
  unfold slotTid
  rw [ofNat_add]
  rfl

/-- **`pthread_self` on a stack of the arena** is the identity of that stack. -/
theorem pthreadSelf_of_slot (tlCurrent : Word) : pthreadSelf ⟨0, tlCurrent, sp⟩ = slotTid i := by
  unfold pthreadSelf getCurrentGuestPthreadId
  simp only [not_safe_of_slot h hsp, getThreadIdFromSp_of_slot h hsp]
  rw [if_neg (slotTid_ne_zero h)]
  rfl

end

end

end Slots

/-- Every stack pointer in the `k`-th safe-call stack has its number. -/
lemma safeCallSlot_of_worker (h31 : k ≤ 31)
    (hsp : sp - (safeCallStackBase + BitVec.ofNat 64 k * safeCallStackSize) < safeCallStackSize) :
    isSafeCallStackSp sp = true ∧ safeCallSlotFromSp sp = BitVec.ofNat 64 k := by
  have hmul : (BitVec.ofNat 64 k * safeCallStackSize).toNat = k * 0x800000 := by
    have hs : safeCallStackSize.toNat = 0x800000 := rfl
    rw [toNat_mul, toNat_ofNat, hs]
    omega
  generalize BitVec.ofNat 64 k * safeCallStackSize = start at *
  have hoff : (sp - safeCallStackBase).toNat = k * 0x800000 + (sp - (safeCallStackBase + start)).toNat := by
    bv_omega
  have hlt : (sp - (safeCallStackBase + start)).toNat < 0x800000 := hsp
  constructor
  · unfold isSafeCallStackSp
    rw [decide_eq_true (show sp ≥ safeCallStackBase by bv_omega),
      decide_eq_true (show sp < safeCallArenaEnd by bv_omega)]
    rfl
  · apply eq_of_toNat_eq
    have hs : safeCallStackSize.toNat = 0x800000 := rfl
    unfold safeCallSlotFromSp
    rw [toNat_udiv, toNat_ofNat, hoff, hs]
    omega

lemma pthreadSelf_worker (h1 : 1 ≤ k) (h31 : k ≤ 31)
    (hsp : sp - (safeCallStackBase + BitVec.ofNat 64 k * safeCallStackSize) < safeCallStackSize) (tlCurrent : Word) :
    pthreadSelf ⟨0, tlCurrent, sp⟩ = BitVec.ofNat 64 (0x40000000 + k) := by
  obtain ⟨hsafe, hslot⟩ := safeCallSlot_of_worker h31 hsp
  have hne : BitVec.ofNat 64 k ≠ 0 := by bv_omega
  unfold pthreadSelf getCurrentGuestPthreadId
  simp only [hsafe, hslot, if_neg hne]
  rw [ofNat_add]
  rfl

lemma pthreadSelf_main (h : sp ≥ 0x7f800000 ∧ sp < 0x80000000) (tlCurrent : Word) :
    pthreadSelf ⟨0, tlCurrent, sp⟩ = 1 := by
  have hsafe : isSafeCallStackSp sp = false := isSafeCallStackSp_of_lt (by bv_omega)
  unfold pthreadSelf getCurrentGuestPthreadId getThreadIdFromSp
  simp only [hsafe, if_pos h]
  rfl

/-! ### Whose thread-specific values -/

lemma getCurrentGuestPthreadId_snd (c : Context) : (getCurrentGuestPthreadId c).2 = (getCurrentTlsThreadId c).2 := by
  unfold getCurrentGuestPthreadId getCurrentTlsThreadId
  split_ifs <;> simp only [] <;> split_ifs <;> rfl

lemma getCurrentTlsThreadId_of_slot {region : Word} {i : ℕ} (h : Arena.Slot .stack region i)
    (hsp : sp - region < stack.size) (tlCurrent : Word) :
    getCurrentTlsThreadId ⟨0, tlCurrent, sp⟩ = (slotTid i, slotTid i) := by
  unfold getCurrentTlsThreadId
  simp only [not_safe_of_slot h hsp, getThreadIdFromSp_of_slot h hsp]
  rw [if_neg (slotTid_ne_zero h)]
  rfl

lemma getCurrentTlsThreadId_worker (h1 : 1 ≤ k) (h31 : k ≤ 31)
    (hsp : sp - (safeCallStackBase + BitVec.ofNat 64 k * safeCallStackSize) < safeCallStackSize) (tlCurrent : Word) :
    getCurrentTlsThreadId ⟨0, tlCurrent, sp⟩ = (BitVec.ofNat 64 (0x40000000 + k), tlCurrent) := by
  obtain ⟨hsafe, hslot⟩ := safeCallSlot_of_worker h31 hsp
  have hne : BitVec.ofNat 64 k ≠ 0 := by bv_omega
  unfold getCurrentTlsThreadId
  simp only [hsafe, hslot, if_neg hne]
  rw [ofNat_add]
  rfl

lemma getCurrentTlsThreadId_main (h : sp ≥ 0x7f800000 ∧ sp < 0x80000000) (tlCurrent : Word) :
    getCurrentTlsThreadId ⟨0, tlCurrent, sp⟩ = (0, 1) := by
  have hsafe : isSafeCallStackSp sp = false := isSafeCallStackSp_of_lt (by bv_omega)
  unfold getCurrentTlsThreadId getThreadIdFromSp
  simp only [hsafe, if_pos h]
  rfl

/-- On the first safe-call stack the values are those of the thread last seen on the host thread. -/
lemma getCurrentTlsThreadId_nested (h : sp - safeCallStackBase < safeCallStackSize) (tlCurrent : Word) :
    getCurrentTlsThreadId ⟨0, tlCurrent, sp⟩ = (if tlCurrent = 0 ∨ tlCurrent = 1 then 0 else tlCurrent, tlCurrent) := by
  obtain ⟨hsafe, hslot⟩ := safeCallSlot_of_worker (k := 0) (by decide) (by simpa using h)
  unfold getCurrentTlsThreadId
  simp only [hsafe, hslot]
  rfl

end CrossShim.Threads
