import CrossShim.Lib.Bytes

/-!
# Virtual files

`sys_openat`, `sys_lseek` and `sys_read` of `syscall_handler.cpp`.  A position is a `size_t`: a seek before the start of
a file makes it a large one, and behind the end of a file the difference to its size wraps, so that a read goes beyond
the data.  A run of calls does what they are for exactly if it does neither: `calls_lawful_iff`.
-/

namespace CrossShim.Process.VirtualFiles

open Lib Function

/-- The data of a file, no longer than a `std::vector` can be. -/
abbrev FileData := { data : List Byte // data.length < 2 ^ 63 }

structure VirtualFd where
  data : FileData
  position : Word

inductive Fault where
  | overread
  deriving DecidableEq

/-- The result of a call, and the bytes that `memory_.write` gets for the buffer. -/
structure Ret where
  x0 : Word
  written : List Byte := []

structure SyscallHandler where
  virtualFiles : String → Option FileData
  openFds : ℕ → Option VirtualFd
  nextFd : ℕ

open SyscallHandler

namespace VirtualFd

variable (f : VirtualFd)

def size : Word := BitVec.ofNat 64 f.data.1.length

/-- What a seek counts from. -/
def origin (whence : BitVec 32) : Option Word :=
  if whence = 0 then some 0
  else if whence = 1 then some f.position
  else if whence = 2 then some f.size
  else none

def toRead (count : Word) : Word := min count (f.size - f.position)

end VirtualFd

namespace SyscallHandler

variable (s : SyscallHandler)

/-- Descriptors 0 to 2 are open, and empty. -/
def init (virtualFiles : String → Option FileData) : SyscallHandler :=
  ⟨virtualFiles, fun fd => if fd < 3 then some ⟨⟨[], by decide⟩, 0⟩ else none, 3⟩

def setPosition (fd : ℕ) (f : VirtualFd) (position : Word) : SyscallHandler :=
  { s with openFds := update s.openFds fd (some { f with position }) }

def sysOpenat (path : String) : SyscallHandler × Ret :=
  match s.virtualFiles path with
  | some data =>
    ({ s with openFds := update s.openFds s.nextFd (some ⟨data, 0⟩), nextFd := s.nextFd + 1 },
      ⟨BitVec.ofNat 64 s.nextFd, []⟩)
  | none => (s, ⟨-2, []⟩)

def sysLseek (fd : ℕ) (offset : Word) (whence : BitVec 32) : SyscallHandler × Ret :=
  match s.openFds fd with
  | none => (s, ⟨-9, []⟩)
  | some f =>
    match f.origin whence with
    | none => (s, ⟨-22, []⟩)
    | some base => (s.setPosition fd f (base + offset), ⟨base + offset, []⟩)

/-- The copy reads from the vector without a check. -/
def sysRead (fd : ℕ) (count : Word) : Except Fault (SyscallHandler × Ret) :=
  match s.openFds fd with
  | none => .ok (s, ⟨-9, []⟩)
  | some f =>
    if f.data.1 = [] then .ok (s, ⟨0, []⟩)
    else if f.toRead count = 0 then .ok (s, ⟨0, []⟩)
    else if f.position.toNat + (f.toRead count).toNat ≤ f.data.1.length then
      .ok (s.setPosition fd f (f.position + f.toRead count),
        ⟨f.toRead count, (f.data.1.drop f.position.toNat).take (f.toRead count).toNat⟩)
    else .error .overread

end SyscallHandler

inductive Call where
  | openat (path : String)
  | lseek (fd : ℕ) (offset : Word) (whence : BitVec 32)
  | read (fd : ℕ) (count : Word)

variable (s : SyscallHandler)

def step : Call → Except Fault (SyscallHandler × Ret)
  | .openat path => .ok (s.sysOpenat path)
  | .lseek fd offset whence => .ok (s.sysLseek fd offset whence)
  | .read fd count => s.sysRead fd count

/-- **What a call is for.** A read returns the bytes that are asked for and left; a seek to a negative position fails
and changes nothing. -/
def Lawful : Call → Prop
  | .openat _ => True
  | .lseek fd offset whence => ∀ f base, s.openFds fd = some f → f.origin whence = some base →
    (base.toNat : ℤ) + offset.toInt < 0 → (s.sysLseek fd offset whence).1 = s ∧ (s.sysLseek fd offset whence).2.x0.toInt < 0
  | .read fd count => ∀ f, s.openFds fd = some f → ∃ s' r, s.sysRead fd count = .ok (s', r) ∧
    r.x0.toNat = min count.toNat (f.data.1.length - f.position.toNat) ∧
    r.written = (f.data.1.drop f.position.toNat).take count.toNat ∧
    s'.openFds fd = some { f with position := f.position + r.x0 }

/-- **The condition**: the position is not behind the end where bytes are asked for, and no seek goes before the start,
but for one to where the file is. -/
def Meets : Call → Prop
  | .openat _ => True
  | .lseek fd offset whence => ∀ f base, s.openFds fd = some f → f.origin whence = some base →
    0 ≤ (base.toNat : ℤ) + offset.toInt ∨ base + offset = f.position
  | .read fd count => ∀ f, s.openFds fd = some f → f.data.1 = [] ∨ count = 0 ∨ f.position.toNat ≤ f.data.1.length

/-- Every call of a run is as `P` says. -/
def Along (P : SyscallHandler → Call → Prop) : SyscallHandler → List Call → Prop
  | _, [] => True
  | s, c :: calls => P s c ∧ ∀ r, step s c = .ok r → Along P r.1 calls

section

variable {s : SyscallHandler} {f : VirtualFd} {fd : ℕ} {count offset : Word} {whence : BitVec 32}

lemma toRead_eq (h : count = 0 ∨ f.position.toNat ≤ f.data.1.length) :
    (f.toRead count).toNat = min count.toNat (f.data.1.length - f.position.toNat) := by
  have hlen := f.data.2
  simp only [VirtualFd.toRead, VirtualFd.size, min_def, BitVec.le_def]
  rcases h with rfl | h
  · simp
  · split_ifs <;> bv_omega

lemma toRead_ne_zero (h : f.data.1.length < f.position.toNat) (h0 : count ≠ 0) : f.toRead count ≠ 0 := by
  have hlen := f.data.2
  simp only [VirtualFd.toRead, VirtualFd.size, min_def]
  split_ifs
  · exact h0
  · bv_omega

lemma read_lawful_iff : Lawful s (.read fd count) ↔ Meets s (.read fd count) := by
  constructor
  · intro h f hf
    by_contra hn
    simp only [not_or, not_le] at hn
    obtain ⟨hnil, h0, hlt⟩ := hn
    obtain ⟨s', r, hr, -⟩ := h f hf
    rw [sysRead, hf] at hr
    simp only [if_neg hnil, if_neg (toRead_ne_zero hlt h0)] at hr
    rw [if_neg (by omega)] at hr
    cases hr
  · intro h f hf
    rw [sysRead, hf]
    dsimp only
    by_cases hnil : f.data.1 = []
    · rw [if_pos hnil]
      exact ⟨s, _, rfl, by simp [hnil], by simp [hnil], by simp [hf]⟩
    have hmin := toRead_eq ((h f hf).resolve_left hnil)
    have htake : (f.data.1.drop f.position.toNat).take count.toNat =
        (f.data.1.drop f.position.toNat).take (f.toRead count).toNat := by
      rw [hmin, ← List.length_drop, ← List.take_eq_take_min]
    rw [if_neg hnil, htake]
    by_cases h0 : f.toRead count = 0
    · rw [if_pos h0]
      rw [h0] at hmin ⊢
      exact ⟨s, _, rfl, hmin, rfl, by simp [hf]⟩
    · have hne : (f.toRead count).toNat ≠ 0 := fun h => h0 (BitVec.eq_of_toNat_eq h)
      rw [if_neg h0, if_pos (by omega)]
      exact ⟨_, _, rfl, hmin, rfl, update_self ..⟩

lemma toInt_add_neg {base : Word} (h : (base.toNat : ℤ) + offset.toInt < 0) : (base + offset).toInt < 0 := by
  simp only [BitVec.toInt_eq_toNat_cond] at *
  bv_omega

lemma lseek_lawful_iff : Lawful s (.lseek fd offset whence) ↔ Meets s (.lseek fd offset whence) := by
  refine forall_congr' fun f => forall_congr' fun base => forall_congr' fun hf => forall_congr' fun hb => ?_
  have hrun : s.sysLseek fd offset whence = (s.setPosition fd f (base + offset), ⟨base + offset, []⟩) := by
    simp only [sysLseek, hf, hb]
  rw [hrun, ← not_lt, ← imp_iff_not_or]
  refine imp_congr_right fun hneg => ⟨fun ⟨hs, _⟩ => ?_, fun heq => ⟨?_, toInt_add_neg hneg⟩⟩
  · have hself : update s.openFds fd (some { f with position := base + offset }) fd = s.openFds fd :=
      congrFun (congrArg openFds hs) fd
    rw [update_self, hf] at hself
    exact congrArg VirtualFd.position (Option.some.inj hself)
  · rw [heq, setPosition, ← hf, update_eq_self]

end

lemma lawful_iff (c : Call) : Lawful s c ↔ Meets s c := by
  cases c with
  | openat path => exact Iff.rfl
  | lseek fd offset whence => exact lseek_lawful_iff
  | read fd count => exact read_lawful_iff

/-- **Runs of calls** on any files. -/
theorem calls_lawful_iff (virtualFiles : String → Option FileData) (calls : List Call) :
    Along Lawful (.init virtualFiles) calls ↔ Along Meets (.init virtualFiles) calls := by
  generalize init virtualFiles = s
  induction calls generalizing s with
  | nil => exact Iff.rfl
  | cons c calls ih => exact and_congr (lawful_iff s c) (forall_congr' fun r => imp_congr_right fun _ => ih r.1)

/-- A read behind the end of a file of one byte, and a seek to `-1`. -/
theorem read_past_end : ∃ virtualFiles,
    ¬ Along Lawful (.init virtualFiles) [.openat "f", .lseek 3 2 0, .read 3 1] ∧
    ¬ Along Lawful (.init virtualFiles) [.openat "f", .lseek 3 (-1) 0] := by
  refine ⟨fun _ => some ⟨[0], by decide⟩, fun h => ?_, fun h => ?_⟩
  · obtain ⟨-, h⟩ := h.2 _ rfl
    obtain ⟨_, _, hr, -⟩ := (h _ rfl).1 _ rfl
    cases hr
  · have hs := ((h.2 _ rfl).1 _ 0 rfl rfl (by decide)).1
    cases congrFun (congrArg openFds hs) 3

end CrossShim.Process.VirtualFiles
